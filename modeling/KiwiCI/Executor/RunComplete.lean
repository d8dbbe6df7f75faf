import KiwiCI.Executor.Run

/-!
Local execution is complete and does not depend on the order of events.

A job is pending, on its way to a result, or settled.  A pending job that is not on the
queue waits for a need that is not settled (`Core.waiting`), so an idle loop with pending
jobs would have an infinite chain of needs.  Settled statuses agree with `turn`
(`Core.explained`), which pins them down.
-/

namespace KiwiCI.Executor

open List Table Control

variable {st : Status} {cj : Pipeline.CompiledJob} {queue : List String}

/-! ## Graphs -/

/-- `need` is among the needs of `id`. -/
def Plan.Needs (p : Plan) (need id : String) : Prop :=
  ∃ cj, p.jobs.get? id = some cj ∧ need ∈ cj.needs

/-- A compiled graph without cycles, whose needs are its own jobs, each under its id; at
least one slot; and an order that meets every job once. -/
structure Plan.Valid (p : Plan) : Prop where
  keyed : ∀ id cj, p.jobs.get? id = some cj → cj.id = id
  own : ∀ need id, p.Needs need id → ∃ cj, p.jobs.get? need = some cj
  acyclic : ∀ id, ¬ Relation.TransGen p.Needs id id
  slots : 1 ≤ p.opt.maxParallel
  orderNodup : p.order.Nodup
  orders : ∀ id, id ∈ p.order ↔ ∃ cj, p.jobs.get? id = some cj

theorem Plan.Valid.founded {p : Plan} (valid : p.Valid) : WellFounded p.Needs := by
  have within : ∀ need id, p.Needs need id → need ∈ p.order ∧ id ∈ p.order := by
    intro need id edge
    have first := (valid.orders need).mpr (valid.own need id edge)
    obtain ⟨cj, held, -⟩ := edge
    exact ⟨first, (valid.orders id).mpr ⟨cj, held⟩⟩
  exact wellFounded_of_acyclic (finite_toSet p.order) within valid.acyclic

/-! ## What statuses come to -/

/-- What a turn comes to. -/
def Turn.outcome : Turn → Option (Status × Option JobResult)
  | .settle status result => some (status, result)
  | .wait => none
  | .launch result => some (result.status, some result)

def Explains (p : Plan) (statuses : Table String Status) (results : Table String JobResult)
    (id : String) : Prop :=
  ∃ cj st result, p.jobs.get? id = some cj ∧
    (p.turn id cj statuses results).outcome = some (st, result) ∧
    statuses.get? id = some st ∧ results.get? id = result

theorem Explains.terminal {id : String}
    (explains : Explains p statuses results id) (held : statuses.get? id = some st) :
    st.terminal = true := by
  obtain ⟨cj, st', result, -, turn, status, -⟩ := explains
  rw [held] at status
  cases status
  cases shape : p.turn id cj statuses results with
  | settle status result =>
    rw [shape] at turn
    cases turn
    exact turn_settle_terminal shape
  | wait =>
    rw [shape] at turn
    cases turn
  | launch result =>
    rw [shape] at turn
    cases turn
    exact result.settled

/-- Two assignments that agree with the turns everywhere are the same. -/
theorem explains_unique {p : Plan} (valid : p.Valid)
    (first : ∀ id, (∃ cj, p.jobs.get? id = some cj) → Explains p statuses results id)
    (second : ∀ id, (∃ cj, p.jobs.get? id = some cj) → Explains p statuses' results' id)
    {id : String} (job : ∃ cj, p.jobs.get? id = some cj) :
    statuses.get? id = statuses'.get? id ∧ results.get? id = results'.get? id := by
  induction id using valid.founded.induction with
  | _ id ih =>
    obtain ⟨cj, st, result, held, turn, status, kept⟩ := first id job
    obtain ⟨cj', st', result', held', turn', status', kept'⟩ := second id job
    rw [held] at held'
    cases held'
    have same : p.turn id cj statuses results = p.turn id cj statuses' results' :=
      turn_congr fun need member =>
        ih need ⟨cj, held, member⟩ (valid.own need id ⟨cj, held, member⟩)
    rw [same, turn'] at turn
    cases turn
    exact ⟨status.trans status'.symm, kept.trans kept'.symm⟩

/-! ## The queue -/

/-- The books but for the queue. -/
def Books.unqueued (b : Books) : Books := { b with queue := [], queued := [] }

theorem unqueued_foldl (ids : List String) (b : Books) :
    (ids.foldl Books.push b).unqueued = b.unqueued := by
  induction ids generalizing b with
  | nil => rfl
  | cons id ids ih =>
    rw [foldl_cons, ih]
    unfold Books.push
    split <;> rfl

/-- `b'` is `b` with ids of `ids` pushed. -/
structure Pushed (ids : List String) (b b' : Books) : Prop where
  nodup : b'.queue.Nodup
  queued : ∀ id, id ∈ b'.queued ↔ id ∈ b'.queue
  queue : ∀ id, id ∈ b'.queue ↔ id ∈ b.queue ∨ id ∈ ids ∧ id ∈ b.pending

theorem pushed_foldl (ids : List String) (nodup : b.queue.Nodup)
    (queued : ∀ id, id ∈ b.queued ↔ id ∈ b.queue) : Pushed ids b (ids.foldl Books.push b) := by
  induction ids generalizing b with
  | nil => exact ⟨nodup, queued, by simp⟩
  | cons first ids ih =>
    rw [foldl_cons]
    by_cases fresh : first ∈ b.pending ∧ first ∉ b.queued
    · have shape : b.push first =
          { b with queued := first :: b.queued, queue := b.queue ++ [first] } := by
        simp [Books.push, fresh]
      have absent : first ∉ b.queue := fun there => fresh.2 ((queued first).mpr there)
      have tail : Pushed ids (b.push first) (ids.foldl Books.push (b.push first)) := by
        refine ih ?_ ?_
        · rw [shape]
          rw [nodup_append]
          refine ⟨nodup, nodup_singleton first, fun a there b here same => absent ?_⟩
          rwa [← mem_singleton.mp here, ← same]
        · rw [shape]
          intro id
          simp [queued id, or_comm]
      refine ⟨tail.nodup, tail.queued, fun id => ?_⟩
      rw [tail.queue id, shape]
      simp only [mem_append, mem_cons, not_mem_nil, or_false]
      constructor
      · rintro ((old | rfl) | ⟨later, waits⟩)
        · exact .inl old
        · exact .inr ⟨.inl rfl, fresh.1⟩
        · exact .inr ⟨.inr later, waits⟩
      · rintro (old | ⟨rfl | later, waits⟩)
        · exact .inl (.inl old)
        · exact .inl (.inr rfl)
        · exact .inr ⟨later, waits⟩
    · have shape : b.push first = b := by
        rw [Books.push, if_neg (by simpa using fresh)]
      have tail := ih nodup queued
      rw [shape]
      refine ⟨tail.nodup, tail.queued, fun id => ?_⟩
      rw [tail.queue id, mem_cons]
      constructor
      · rintro (old | ⟨later, waits⟩)
        · exact .inl old
        · exact .inr ⟨.inr later, waits⟩
      · rintro (old | ⟨rfl | later, waits⟩)
        · exact .inl old
        · exact .inl ((queued id).mp (by_contra fun out => fresh ⟨waits, out⟩))
        · exact .inr ⟨later, waits⟩

theorem mem_dependents {p : Plan} (valid : p.Valid) {of id : String} :
    id ∈ p.dependents of ↔ p.Needs of id := by
  simp only [Plan.dependents, mem_flatMap, mem_filterMap]
  constructor
  · rintro ⟨other, -, dep, needs, shape⟩
    split at shape
    · rename_i same
      cases shape
      subst same
      cases held : p.jobs.get? id with
      | none => simp [held] at needs
      | some cj =>
        rw [held] at needs
        exact ⟨cj, held, needs⟩
    · cases shape
  · rintro ⟨cj, held, needs⟩
    exact ⟨id, (valid.orders id).mpr ⟨cj, held⟩, of, by simpa [held] using needs, by simp⟩

/-! ## The books -/

/-- A job on its way to a status and a result. -/
abbrev Going := String × Status × Option JobResult

/-- What holds of the books, with the jobs that left the pending ones and are not settled
yet. -/
structure Core (p : Plan) (going : List Going) (b : Books) : Prop where
  pendingNodup : b.pending.Nodup
  pendingJobs : ∀ id ∈ b.pending, ∃ cj, p.jobs.get? id = some cj
  pendingOpen : ∀ id ∈ b.pending, b.statuses.get? id = none
  queueNodup : b.queue.Nodup
  queueJobs : ∀ id ∈ b.queue, ∃ cj, p.jobs.get? id = some cj
  queued : ∀ id, id ∈ b.queued ↔ id ∈ b.queue
  goingNodup : (going.map Prod.fst).Nodup
  goingLeft : ∀ g ∈ going, g.1 ∉ b.pending
  goingOpen : ∀ g ∈ going, b.statuses.get? g.1 = none
  goingTurn : ∀ g ∈ going, ∃ cj, p.jobs.get? g.1 = some cj ∧
    (p.turn g.1 cj b.statuses b.results).outcome = some g.2
  covers : ∀ id, (∃ cj, p.jobs.get? id = some cj) →
    id ∈ b.pending ∨ (∃ g ∈ going, g.1 = id) ∨ ∃ st, b.statuses.get? id = some st
  explained : ∀ id st, b.statuses.get? id = some st → Explains p b.statuses b.results id
  blank : ∀ id, b.statuses.get? id = none → b.results.get? id = none
  waiting : ∀ id ∈ b.pending, id ∉ b.queue → ∃ need, p.Needs need id ∧ b.statuses.get? need = none

/-- A status that is recorded is kept. -/
def Books.Extends (b b' : Books) : Prop :=
  ∀ k st, b.statuses.get? k = some st →
    b'.statuses.get? k = some st ∧ b'.results.get? k = b.results.get? k

section Core

variable {result : Option JobResult}

variable {p : Plan} {going : List Going} {b b' : Books} {id : String}

theorem turn_outcome_stays (decided : (p.turn id cj b.statuses b.results).outcome = some outcome)
    (extends' : b.Extends b') : (p.turn id cj b'.statuses b'.results).outcome = some outcome := by
  rw [turn_stays (fun wait => ?_) extends', decided]
  rw [wait] at decided
  cases decided

theorem Explains.stays (explains : Explains p b.statuses b.results id)
    (held : b.statuses.get? id = some st) (extends' : b.Extends b') :
    Explains p b'.statuses b'.results id := by
  obtain ⟨cj, st', result, job, turn, status, kept⟩ := explains
  obtain ⟨status', kept'⟩ := extends' id st held
  rw [held] at status
  cases status
  exact ⟨cj, st, result, job, turn_outcome_stays turn extends', status', kept'.trans kept⟩

theorem Core.leave (core : Core p going b) (pending : id ∈ b.pending)
    (job : p.jobs.get? id = some cj)
    (turn : (p.turn id cj b.statuses b.results).outcome = some outcome) :
    Core p ((id, outcome) :: going) (b.leave id) where
  pendingNodup := core.pendingNodup.filter _
  pendingJobs k there := core.pendingJobs k (mem_of_mem_filter there)
  pendingOpen k there := core.pendingOpen k (mem_of_mem_filter there)
  queueNodup := core.queueNodup
  queueJobs := core.queueJobs
  queued := core.queued
  goingNodup := by
    rw [map_cons, nodup_cons]
    refine ⟨fun there => ?_, core.goingNodup⟩
    obtain ⟨g, member, same⟩ := mem_map.mp there
    exact core.goingLeft g member (same ▸ pending)
  goingLeft g member there := by
    obtain ⟨still, other⟩ := mem_filter.mp there
    rcases mem_cons.mp member with rfl | old
    · simp at other
    · exact core.goingLeft g old still
  goingOpen g member := by
    rcases mem_cons.mp member with rfl | old
    · exact core.pendingOpen id pending
    · exact core.goingOpen g old
  goingTurn g member := by
    rcases mem_cons.mp member with rfl | old
    · exact ⟨cj, job, turn⟩
    · exact core.goingTurn g old
  covers k held := by
    by_cases same : k = id
    · exact .inr (.inl ⟨(id, outcome), mem_cons_self, same.symm⟩)
    · rcases core.covers k held with waits | ⟨g, member, named⟩ | settled
      · exact .inl (mem_filter.mpr ⟨waits, by simpa using same⟩)
      · exact .inr (.inl ⟨g, mem_cons_of_mem _ member, named⟩)
      · exact .inr (.inr settled)
  explained := core.explained
  blank := core.blank
  waiting k there := core.waiting k (mem_of_mem_filter there)

/-- A job that is taken off the queue is not pending, or waits for a need. -/
theorem Core.pop (core : Core p going b) (shape : b.queue = id :: queue)
    (waits : id ∈ b.pending → ∃ need, p.Needs need id ∧ b.statuses.get? need = none) :
    Core p going (b.pop id queue) := by
  have nodup := core.queueNodup
  rw [shape, nodup_cons] at nodup
  exact { core with
    queueNodup := nodup.2
    queueJobs := fun k there => core.queueJobs k (shape ▸ mem_cons_of_mem _ there)
    queued := fun k => by
      change k ∈ b.queued.filter (· ≠ id) ↔ k ∈ queue
      rw [mem_filter, core.queued k, shape, mem_cons]
      constructor
      · rintro ⟨rfl | there, other⟩
        · simp at other
        · exact there
      · intro there
        refine ⟨.inr there, decide_eq_true fun same => nodup.1 (same ▸ there)⟩
    waiting := fun k pending off => by
      by_cases same : k = id
      · subst same
        exact waits pending
      · refine core.waiting k pending fun there => ?_
        rw [shape, mem_cons] at there
        exact there.elim same off }

/-- The books in which a status and a result are written, before dependents are pushed. -/
def Books.write (id : String) (status : Status) (result : Option JobResult) (b : Books) : Books :=
  { b with
    statuses := b.statuses.put id status
    results := (result.map fun r => b.results.put id r).getD b.results }

theorem get?_write_results (blank : b.results.get? id = none) :
    (b.write id st result).results.get? id = result := by
  cases result with
  | none => exact blank
  | some r => exact get?_put_self id r b.results

theorem get?_write_results_ne {k : String}
    (other : k ≠ id) : (b.write id st result).results.get? k = b.results.get? k := by
  cases result with
  | none => rfl
  | some r => exact get?_put_ne r b.results other

theorem extends_write (fresh : b.statuses.get? id = none) : b.Extends (b.write id st result) := by
  intro k st' held
  have other : k ≠ id := fun same => by rw [same, fresh] at held; cases held
  exact ⟨(get?_put_ne st b.statuses other).trans held, get?_write_results_ne other⟩

/-- Recording writes the status and the result, and otherwise only touches the queue. -/
theorem record_fields (p : Plan) (id : String) (st : Status) (result : Option JobResult)
    (b : Books) :
    (b.record p id st result).statuses = b.statuses.put id st ∧
      (b.record p id st result).results = (b.write id st result).results ∧
      (b.record p id st result).pending = b.pending ∧
      (b.record p id st result).running = b.running ∧
      (b.record p id st result).started = b.started := by
  have rest : (b.record p id st result).unqueued = (b.write id st result).unqueued :=
    unqueued_foldl (p.dependents id) (b.write id st result)
  rw [Books.unqueued, Books.unqueued, Books.mk.injEq] at rest
  exact ⟨rest.1, rest.2.1, rest.2.2.1, rest.2.2.2.2.2.1, rest.2.2.2.2.2.2⟩

theorem Core.record (valid : p.Valid)
    (core : Core p ((id, st, result) :: going) b) : Core p going (b.record p id st result) := by
  have fresh := core.goingOpen _ mem_cons_self
  have blank := core.blank id fresh
  have grows : b.Extends (b.write id st result) := extends_write fresh
  have pushed : Pushed (p.dependents id) (b.write id st result) (b.record p id st result) :=
    pushed_foldl _ core.queueNodup core.queued
  obtain ⟨statuses, results, pending, -⟩ := record_fields p id st result b
  generalize b.record p id st result = b' at pushed statuses results pending
  have still (k : String) (open' : b'.statuses.get? k = none) :
      k ≠ id ∧ b.statuses.get? k = none := by
    have other : k ≠ id := fun same => by
      rw [same, statuses, get?_put_self] at open'
      cases open'
    rw [statuses, get?_put_ne _ _ other] at open'
    exact ⟨other, open'⟩
  have opens (k : String) (other : k ≠ id) (free : b.statuses.get? k = none) :
      b'.statuses.get? k = none := by
    rw [statuses, get?_put_ne _ _ other, free]
  have grows' : b.Extends b' := by
    intro k st' held
    rw [statuses, results]
    exact grows k st' held
  have left := core.goingLeft _ mem_cons_self
  have apart : ∀ g ∈ going, g.1 ≠ id := by
    intro g member same
    have nodup := core.goingNodup
    rw [map_cons, nodup_cons] at nodup
    exact nodup.1 (mem_map.mpr ⟨g, member, same⟩)
  exact {
    pendingNodup := pending ▸ core.pendingNodup
    pendingJobs := fun k there => core.pendingJobs k (pending ▸ there)
    pendingOpen := fun k there => by
      rw [pending] at there
      exact opens k (fun same => left (same ▸ there)) (core.pendingOpen k there)
    queueNodup := pushed.nodup
    queueJobs := fun k there => by
      rcases (pushed.queue k).mp there with old | ⟨-, waits⟩
      · exact core.queueJobs k old
      · exact core.pendingJobs k waits
    queued := pushed.queued
    goingNodup := core.goingNodup.of_cons
    goingLeft := fun g member => by
      rw [pending]
      exact core.goingLeft g (mem_cons_of_mem _ member)
    goingOpen := fun g member =>
      opens g.1 (apart g member) (core.goingOpen g (mem_cons_of_mem _ member))
    goingTurn := fun g member => by
      obtain ⟨cj, job, turn⟩ := core.goingTurn g (mem_cons_of_mem _ member)
      exact ⟨cj, job, turn_outcome_stays turn grows'⟩
    covers := fun k held => by
      rw [pending, statuses]
      by_cases same : k = id
      · exact .inr (.inr ⟨st, by rw [same, get?_put_self]⟩)
      · rw [get?_put_ne _ _ same]
        rcases core.covers k held with waits | ⟨g, member, named⟩ | settled
        · exact .inl waits
        · rcases mem_cons.mp member with rfl | old
          · exact absurd named.symm same
          · exact .inr (.inl ⟨g, old, named⟩)
        · exact .inr (.inr settled)
    explained := fun k st' held => by
      by_cases same : k = id
      · obtain ⟨cj, job, turn⟩ := core.goingTurn _ mem_cons_self
        subst same
        refine ⟨cj, st, result, job, turn_outcome_stays turn grows', ?_, ?_⟩
        · rw [statuses, get?_put_self]
        · rw [results, get?_write_results blank]
      · rw [statuses, get?_put_ne _ _ same] at held
        exact (core.explained k st' held).stays held grows'
    blank := fun k open' => by
      obtain ⟨other, free⟩ := still k open'
      rw [results, get?_write_results_ne other]
      exact core.blank k free
    waiting := fun k there off => by
      rw [pending] at there
      have off' : k ∉ b.queue := fun old => off ((pushed.queue k).mpr (.inl old))
      obtain ⟨need, edge, free⟩ := core.waiting k there off'
      -- a pending dependent of the job that was settled is back on the queue
      have other : need ≠ id := fun same =>
        off ((pushed.queue k).mpr (.inr ⟨(mem_dependents valid).mpr (same ▸ edge), there⟩))
      exact ⟨need, edge, opens need other free⟩ }

theorem Core.perm {going' : List Going} (core : Core p going b) (perm : going.Perm going') :
    Core p going' b :=
  { core with
    goingNodup := (perm.map Prod.fst).nodup_iff.mp core.goingNodup
    goingLeft := fun g member => core.goingLeft g (perm.mem_iff.mpr member)
    goingOpen := fun g member => core.goingOpen g (perm.mem_iff.mpr member)
    goingTurn := fun g member => core.goingTurn g (perm.mem_iff.mpr member)
    covers := fun k held => by
      rcases core.covers k held with waits | ⟨g, member, named⟩ | settled
      · exact .inl waits
      · exact .inr (.inl ⟨g, perm.mem_iff.mp member, named⟩)
      · exact .inr (.inr settled) }

/-- With nothing on the queue and nothing on its way, nothing is pending. -/
theorem Core.idle (valid : p.Valid) (core : Core p [] b) (empty : b.queue = []) :
    b.pending = [] := by
  by_contra some
  obtain ⟨first, there⟩ := exists_mem_of_ne_nil _ some
  obtain ⟨least, pending, minimal⟩ := valid.founded.has_min {id | id ∈ b.pending} ⟨first, there⟩
  obtain ⟨need, edge, free⟩ := core.waiting least pending (by simp [empty])
  rcases core.covers need (valid.own need least edge) with waits | ⟨g, none, -⟩ | ⟨st, settled⟩
  · exact minimal need waits edge
  · cases none
  · rw [free] at settled
    cases settled

end Core

/-! ## The machine -/

/-- The job the loop is about to start. -/
def Control.acquiring : Control → List (String × JobResult)
  | .acquire id result => [(id, result)]
  | _ => []

/-- The jobs that were started and not received. -/
def State.flight (s : State) : List (String × JobResult) :=
  s.control.acquiring ++ s.working ++ s.released ++ s.done

/-- What a started job is on its way to. -/
def goingOf (flight : List (String × JobResult)) : List Going :=
  flight.map fun c => (c.1, c.2.status, some c.2)

/-- A job was started when its needs were over and its condition allowed their outcome. -/
def Start.Ready (p : Plan) (start : Start) : Prop :=
  ∃ cj outcome, p.jobs.get? start.id = some cj ∧
    (∀ need ∈ cj.needs, ∃ st, start.statuses.get? need = some st ∧ st.terminal = true) ∧
    depsOutcome cj.needs start.statuses.get? = some outcome ∧
    dependencyConditionAllows cj.job.condition p.opt.branch p.opt.event outcome
      (cj.job.env.rows.map fun row => (row.1, row.2)) = true

/-- No job was started twice, and each when it was ready. -/
structure Starts (p : Plan) (b : Books) : Prop where
  nodup : (b.started.map Start.id).Nodup
  left : ∀ start ∈ b.started, start.id ∉ b.pending
  ready : ∀ start ∈ b.started, start.Ready p

/-- What holds where the loop stands. -/
def State.Placed (s : State) : Prop :=
  match s.control with
  | .head | .acquire _ _ => True
  | .drain => s.scheduled = true → 0 < s.running
  | .receive => s.queue = [] ∧ (s.scheduled = true → 0 < s.running)
  | .returned deadlock => deadlock = false ∧ s.pending = [] ∧ s.running = 0

structure Inv (p : Plan) (s : State) : Prop where
  core : Core p (goingOf s.flight) s.toBooks
  running : s.running = s.flight.length
  starts : Starts p s.toBooks
  placed : s.Placed

section Step

variable {p : Plan} {s s' : State}

theorem inv_start (valid : p.Valid) : Inv p p.start where
  core := {
    pendingNodup := valid.orderNodup
    pendingJobs := fun id there => (valid.orders id).mp there
    pendingOpen := fun _ _ => rfl
    queueNodup := by
      change (p.jobs.sorted.map Prod.fst).Nodup
      rw [map_fst_sorted]
      exact nodup_select _ _
    queueJobs := fun id there => by
      obtain ⟨entry, member, rfl⟩ := mem_map.mp there
      exact ⟨entry.2, mem_sorted.mp member⟩
    queued := fun _ => Iff.rfl
    goingNodup := .nil
    goingLeft := fun _ none => by cases none
    goingOpen := fun _ none => by cases none
    goingTurn := fun _ none => by cases none
    covers := fun id held => .inl ((valid.orders id).mpr held)
    explained := fun _ _ held => by cases held
    blank := fun _ _ => rfl
    waiting := fun id there off => by
      obtain ⟨cj, held⟩ := (valid.orders id).mp there
      exact absurd (mem_map.mpr ⟨(id, cj), mem_sorted.mpr held, rfl⟩) off }
  running := rfl
  starts := {
    nodup := .nil
    left := fun _ none => by cases none
    ready := fun _ none => by cases none }
  placed := trivial

/-- The books are untouched, and what was started is still somewhere. -/
theorem Inv.shuffled (inv : Inv p s) (books : s'.toBooks = s.toBooks)
    (perm : s.flight.Perm s'.flight) (placed : s'.Placed) : Inv p s' where
  core := books ▸ inv.core.perm (perm.map _)
  running := by
    rw [← perm.length_eq, ← inv.running]
    exact congrArg Books.running books
  starts := books ▸ inv.starts
  placed := placed

theorem flight_of_idle (idle : s.control.acquiring = []) :
    s.flight = s.working ++ s.released ++ s.done := by
  rw [State.flight, idle, nil_append]

theorem Inv.unsettled (inv : Inv p s)
    (open' : ∀ st, s.statuses.get? need = some st → st.terminal = false) :
    s.statuses.get? need = none := by
  cases held : s.statuses.get? need with
  | none => rfl
  | some st =>
    have ended := (inv.core.explained need st held).terminal held
    rw [open' st held] at ended
    cases ended

theorem inv_receive (valid : p.Valid) (inv : Inv p s) (at' : s.control = .receive)
    (shape : s.done = c :: done) :
    Inv p { s with
      toBooks := Books.record p c.1 c.2.status (some c.2)
        { s.toBooks with running := s.running - 1 }
      done := done
      control := .head } := by
  have going : s.flight.Perm (c :: (s.working ++ s.released ++ done)) := by
    rw [flight_of_idle (by rw [at']; rfl), shape]
    exact perm_middle
  have core : Core p ((c.1, c.2.status, some c.2) :: goingOf (s.working ++ s.released ++ done))
      { s.toBooks with running := s.running - 1 } :=
    { inv.core.perm (going.map _) with }
  obtain ⟨-, -, left, running, started⟩ :=
    record_fields p c.1 c.2.status (some c.2) { s.toBooks with running := s.running - 1 }
  exact {
    core := core.record valid
    running := by
      refine running.trans ?_
      change s.running - 1 = _
      rw [inv.running, going.length_eq]
      rfl
    starts := {
      nodup := started ▸ inv.starts.nodup
      left := fun start member there =>
        inv.starts.left start (started ▸ member) (left ▸ there)
      ready := fun start member => inv.starts.ready start (started ▸ member) }
    placed := trivial }

/-! ## Termination -/

/-- How far the jobs are from being settled. -/
def State.distance (s : State) : Nat :=
  6 * s.pending.length + 5 * s.control.acquiring.length + 4 * s.working.length +
    3 * s.released.length + 2 * s.done.length

/-- How far the loop is from the end of its round. -/
def State.round (s : State) : Nat :=
  match s.control with
  | .head => if s.pending ≠ [] ∨ 0 < s.running then s.queue.length + 4 else 1
  | .drain | .acquire _ _ => s.queue.length + 3
  | .receive => 2
  | .returned _ => 0

/-- A measure every step lowers: rounds are bounded, and outweighed by any progress. -/
def State.measure (p : Plan) (s : State) : Nat := (p.order.length + 5) * s.distance + s.round

theorem Inv.round_lt (valid : p.Valid) (inv : Inv p s) : s.round < p.order.length + 5 := by
  have short : s.queue.length ≤ p.order.length :=
    (inv.core.queueNodup.subperm fun id there =>
      (valid.orders id).mpr (inv.core.queueJobs id there)).length_le
  unfold State.round
  split
  · split <;> omega
  all_goals omega

/-- Progress of the jobs lowers the measure, whatever it does to the round. -/
theorem measure_lt_of_distance (valid : p.Valid) (inv' : Inv p s')
    (nearer : s'.distance < s.distance) : s'.measure p < s.measure p := by
  have round := inv'.round_lt valid
  calc s'.measure p < (p.order.length + 5) * (s'.distance + 1) := by
        rw [State.measure, Nat.mul_succ]
        omega
    _ ≤ (p.order.length + 5) * s.distance := Nat.mul_le_mul_left _ nearer
    _ ≤ s.measure p := Nat.le_add_right _ _

theorem measure_lt_of_round (same : s'.distance = s.distance) (shorter : s'.round < s.round) :
    s'.measure p < s.measure p := by
  rw [State.measure, State.measure, same]
  omega

theorem length_leave_lt {b : Books} {id : String} (there : id ∈ b.pending) :
    (b.leave id).pending.length < b.pending.length := by
  apply length_filter_lt_length_iff_exists.mpr
  exact ⟨id, there, by simp⟩

/-- A pending job that is first on the queue has its turn. -/
theorem take_moves (valid : p.Valid) (inv : Inv p s) (at' : s.control = .drain) {id : String}
    (shape : s.queue = id :: queue) (pending : id ∈ s.pending) (job : p.jobs.get? id = some cj) :
    Inv p (State.take p id cj { s with toBooks := s.pop id queue }) ∧
      (State.take p id cj { s with toBooks := s.pop id queue }).measure p < s.measure p := by
  have going : s.flight = s.working ++ s.released ++ s.done :=
    flight_of_idle (by rw [at']; rfl)
  have placed : s.scheduled = true → 0 < s.running := by
    have held := inv.placed
    rw [State.Placed, at'] at held
    exact held
  have shorter : ((s.pop id queue).leave id).pending.length < s.pending.length :=
    length_leave_lt pending
  -- whatever the turn comes to, the job leaves the queue
  have departs {outcome : Status × Option JobResult}
      (turn : (p.turn id cj (s.pop id queue).statuses (s.pop id queue).results).outcome =
        some outcome) : Core p ((id, outcome) :: goingOf s.flight) ((s.pop id queue).leave id) :=
    (inv.core.leave pending job turn).pop shape fun there => by simp [Books.leave] at there
  unfold State.take
  cases turn : p.turn id cj (s.pop id queue).statuses (s.pop id queue).results with
  | settle status result =>
    have core := (departs (by rw [turn]; rfl)).record valid
    obtain ⟨-, -, left, running, started⟩ :=
      record_fields p id status result ((s.pop id queue).leave id)
    have inv' : Inv p { s with
        toBooks := ((s.pop id queue).leave id).record p id status result } := {
      core := core
      running := running.trans inv.running
      starts := {
        nodup := started ▸ inv.starts.nodup
        left := fun start member => by
          rw [started] at member
          rw [left]
          exact fun there => inv.starts.left start member (mem_of_mem_filter there)
        ready := fun start member => inv.starts.ready start (started ▸ member) }
      placed := by
        rw [State.Placed, at']
        exact fun set => running.trans_gt (placed set) }
    refine ⟨inv', measure_lt_of_distance valid inv' ?_⟩
    simp only [State.distance]
    rw [left]
    omega
  | wait =>
    obtain ⟨need, member, going'⟩ := turn_wait turn
    refine ⟨{
      core := inv.core.pop shape fun _ => ⟨need, ⟨cj, job, member⟩, inv.unsettled going'⟩
      running := inv.running
      starts := ⟨inv.starts.nodup, inv.starts.left, inv.starts.ready⟩
      placed := by
        rw [State.Placed, at']
        exact placed }, measure_lt_of_round rfl ?_⟩
    simp only [State.round, at', shape, length_cons]
    exact Nat.lt_succ_self _
  | launch result =>
    have keyed := valid.keyed id cj job
    obtain ⟨outcome, ready, allows⟩ := turn_launch turn
    have left : Core p ((id, result.status, some result) :: goingOf s.flight) _ :=
      departs (by rw [turn]; rfl)
    have flight : State.flight { s with
        toBooks := (s.pop id queue).launch id
        scheduled := true
        control := .acquire id result } = (id, result) :: s.flight := by
      rw [going]
      simp [State.flight, acquiring]
    have inv' : Inv p { s with
        toBooks := (s.pop id queue).launch id
        scheduled := true
        control := .acquire id result } := {
      core := by
        rw [flight]
        exact { left with }
      running := by
        rw [flight, length_cons, ← inv.running]
        rfl
      starts := {
        nodup := by
          change (map Start.id (⟨id, s.statuses⟩ :: s.started)).Nodup
          rw [map_cons, nodup_cons]
          refine ⟨fun there => ?_, inv.starts.nodup⟩
          obtain ⟨start, member, same⟩ := mem_map.mp there
          exact inv.starts.left start member (same ▸ pending)
        left := fun start member there => by
          obtain ⟨still, other⟩ := mem_filter.mp there
          rcases mem_cons.mp member with rfl | old
          · simp at other
          · exact inv.starts.left start old still
        ready := fun start member => by
          rcases mem_cons.mp member with rfl | old
          · exact ⟨cj, outcome, job, fun need there => depsOutcomeFrom_some ready need there, ready,
              allows⟩
          · exact inv.starts.ready start old }
      placed := trivial }
    rw [keyed]
    refine ⟨inv', measure_lt_of_distance valid inv' ?_⟩
    have launched : ((s.pop id queue).launch id).pending = ((s.pop id queue).leave id).pending := rfl
    simp only [State.distance, at', acquiring, length_singleton, length_nil]
    rw [launched]
    omega

/-- A step of the loop keeps the invariant and lowers the measure. -/
theorem advance_moves (valid : p.Valid) (inv : Inv p s) (ran : s.advance p = some s') :
    Inv p s' ∧ s'.measure p < s.measure p := by
  have placed := inv.placed
  unfold State.advance at ran
  split at ran
  case h_1 at' =>
    split at ran <;> rename_i going <;> cases ran
    · refine ⟨inv.shuffled rfl (by rw [State.flight, at']; rfl) (fun set => by cases set),
        measure_lt_of_round ?_ ?_⟩
      · simp only [State.distance, at', acquiring]
      · simp only [State.round, at', if_pos going]
        omega
    · have ended := going
      rw [not_or, not_not] at ended
      refine ⟨inv.shuffled rfl (by rw [State.flight, at']; rfl)
        ⟨rfl, ended.1, Nat.eq_zero_of_not_pos ended.2⟩, measure_lt_of_round ?_ ?_⟩
      · simp only [State.distance, at', acquiring]
      · simp only [State.round, at', if_neg going]
        omega
  case h_2 at' =>
    rw [State.Placed, at'] at placed
    split at ran
    · rename_i empty
      cases ran
      refine ⟨inv.shuffled rfl (by rw [State.flight, at']; rfl) ⟨empty, placed⟩,
        measure_lt_of_round ?_ ?_⟩
      · simp only [State.distance, at', acquiring]
      · simp only [State.round, at', empty]
        omega
    · rename_i id queue shape
      obtain ⟨cj, job⟩ := inv.core.queueJobs id (by rw [shape]; exact mem_cons_self)
      dsimp only at ran
      split at ran
      · rename_i there
        cases ran
        rw [job]
        have pending := contains_iff_mem.mp there
        exact take_moves valid inv at' shape pending job
      · rename_i gone
        cases ran
        have out : id ∉ s.pending := fun there => gone (contains_iff_mem.mpr there)
        refine ⟨{
          core := inv.core.pop shape fun there => absurd there out
          running := inv.running
          starts := ⟨inv.starts.nodup, inv.starts.left, inv.starts.ready⟩
          placed := by
            rw [State.Placed, at']
            exact placed }, measure_lt_of_round rfl ?_⟩
        simp only [State.round, at', shape, length_cons]
        exact Nat.lt_succ_self _
  case h_3 id result at' =>
    split at ran
    · cases ran
      have flight : s.flight = (id, result) :: (s.working ++ s.released ++ s.done) := by
        rw [State.flight, at']
        rfl
      have inv' : Inv p { s with working := s.working ++ [(id, result)], control := .drain } := by
        refine inv.shuffled rfl ?_ fun _ => ?_
        · rw [flight]
          simp only [State.flight, acquiring, nil_append, append_assoc]
          exact perm_middle.symm
        · change 0 < s.running
          rw [inv.running, flight]
          exact Nat.succ_pos _
      refine ⟨inv', measure_lt_of_distance valid inv' ?_⟩
      simp only [State.distance, at', acquiring, length_append, length_singleton,
        length_nil]
      omega
    · cases ran
  case h_4 at' =>
    rw [State.Placed, at'] at placed
    split at ran
    · split at ran
      · cases ran
      · rename_i c done shape
        cases ran
        have inv' := inv_receive valid inv at' shape
        refine ⟨inv', measure_lt_of_distance valid inv' ?_⟩
        have kept : (Books.record p c.1 c.2.status (some c.2)
            { s.toBooks with running := s.running - 1 }).pending = s.pending :=
          (record_fields p _ _ _ _).2.2.1
        simp only [State.distance, at', acquiring, shape, length_cons]
        rw [kept]
        omega
    · rename_i none
      -- nothing is on its way, so nothing is pending either
      have landed : s.flight = [] := by
        apply eq_nil_of_length_eq_zero
        rw [← inv.running]
        exact Nat.eq_zero_of_not_pos none
      have idle : s.pending = [] := by
        have core := inv.core
        rw [landed] at core
        exact core.idle valid placed.1
      rw [if_neg (by simp [idle])] at ran
      cases ran
      refine ⟨inv.shuffled rfl (by rw [State.flight, at']; rfl) trivial, measure_lt_of_round ?_ ?_⟩
      · simp only [State.distance, at', acquiring]
      · simp only [State.round, at', idle, none, ne_eq, not_true_eq_false, or_self, if_false]
        omega
  case h_5 => cases ran

theorem eraseIdx_perm {α : Type} {l : List α} {a : α} (found : l[i]? = some a) :
    l.Perm (a :: l.eraseIdx i) := by
  obtain ⟨inside, rfl⟩ := List.getElem?_eq_some_iff.mp found
  exact (getElem_cons_eraseIdx_perm inside).symm

theorem step_moves (valid : p.Valid) (e : Event) (inv : Inv p s) (ran : step p e s = some s') :
    Inv p s' ∧ s'.measure p < s.measure p := by
  cases e with
  | main => exact advance_moves valid inv ran
  | release i =>
    obtain ⟨c, found, rfl⟩ := Option.map_eq_some_iff.mp ran
    have fewer := (eraseIdx_perm found).length_eq
    have inv' : Inv p { s with working := s.working.eraseIdx i, released := s.released ++ [c] } := by
      refine inv.shuffled rfl ?_ inv.placed
      simp only [State.flight, append_assoc]
      refine Perm.append_left _ (((eraseIdx_perm found).append_right _).trans ?_)
      simp only [cons_append, nil_append]
      refine perm_middle.symm.trans (Perm.append_left _ ?_)
      exact perm_middle.symm
    refine ⟨inv', measure_lt_of_distance valid inv' ?_⟩
    rw [length_cons] at fewer
    simp only [State.distance, length_append, length_singleton]
    omega
  | send i =>
    obtain ⟨c, found, rfl⟩ := Option.map_eq_some_iff.mp ran
    have fewer := (eraseIdx_perm found).length_eq
    have inv' : Inv p { s with released := s.released.eraseIdx i, done := s.done ++ [c] } := by
      refine inv.shuffled rfl ?_ inv.placed
      simp only [State.flight, append_assoc]
      refine Perm.append_left _ (Perm.append_left _ ?_)
      refine ((eraseIdx_perm found).append_right _).trans ?_
      rw [cons_append]
      refine perm_middle.symm.trans (Perm.append_left _ ?_)
      exact (perm_append_singleton c s.done).symm
    refine ⟨inv', measure_lt_of_distance valid inv' ?_⟩
    rw [length_cons] at fewer
    simp only [State.distance, length_append, length_singleton]
    omega

/-! ## Progress -/

theorem enabled (valid : p.Valid) (inv : Inv p s) :
    (∃ deadlock, s.control = .returned deadlock) ∨ ∃ e s', step p e s = some s' := by
  have releases (busy : s.working ≠ []) : ∃ e s', step p e s = some s' := by
    obtain ⟨c, rest, shape⟩ := exists_cons_of_ne_nil busy
    exact ⟨.release 0, _, by simp only [step, shape, getElem?_cons_zero, Option.map_some]; rfl⟩
  cases at' : s.control with
  | head =>
    refine .inr ⟨.main, ?_⟩
    simp only [step, State.advance, at']
    split <;> exact ⟨_, rfl⟩
  | drain =>
    refine .inr ⟨.main, ?_⟩
    simp only [step, State.advance, at']
    split
    · exact ⟨_, rfl⟩
    · split <;> exact ⟨_, rfl⟩
  | acquire id result =>
    by_cases free : s.working.length < p.opt.maxParallel
    · refine .inr ⟨.main, ?_⟩
      simp only [step, State.advance, at', if_pos free]
      exact ⟨_, rfl⟩
    · have slots := valid.slots
      exact .inr (releases fun none => by
        rw [none] at free
        exact free slots)
  | receive =>
    by_cases going : 0 < s.running
    · cases sent : s.done with
      | cons c done =>
        refine .inr ⟨.main, ?_⟩
        simp only [step, State.advance, at', if_pos going, sent]
        exact ⟨_, rfl⟩
      | nil =>
        by_cases busy : s.working = []
        · have flight : s.flight = s.released := by
            rw [flight_of_idle (by rw [at']; rfl), busy, sent, nil_append, append_nil]
          rw [inv.running, flight] at going
          obtain ⟨c, rest, shape⟩ := exists_cons_of_length_pos going
          exact .inr ⟨.send 0, _, by
            simp only [step, shape, getElem?_cons_zero, Option.map_some]; rfl⟩
        · exact .inr (releases busy)
    · refine .inr ⟨.main, ?_⟩
      simp only [step, State.advance, at', if_neg going]
      split <;> exact ⟨_, rfl⟩
  | returned deadlock => exact .inl ⟨deadlock, rfl⟩

end Step

/-! ## Whole runs -/

/-- More steps than any run of the plan takes. -/
def Plan.bound (p : Plan) : Nat := (p.order.length + 5) * (6 * p.order.length) + p.order.length + 5

/-- `s` is reached from the start by the events. -/
def Plan.Reaches (p : Plan) (events : List Event) (s : State) : Prop :=
  trace (step p) events p.start = some s

section Runs

variable {p : Plan} {events : List Event} {s : State}

theorem inv_of_reaches (valid : p.Valid) (ran : p.Reaches events s) : Inv p s :=
  trace_invariant (fun e _ _ inv ran => (step_moves valid e inv ran).1) (inv_start valid) ran

theorem length_of_reaches (valid : p.Valid) (ran : p.Reaches events s) :
    events.length ≤ p.bound := by
  have bounded := length_trace_le (fun e _ _ inv ran => (step_moves valid e inv ran).1)
    (State.measure p) (fun e _ _ inv ran => (step_moves valid e inv ran).2) (inv_start valid) ran
  have round := (inv_start valid).round_lt valid
  have distance : p.start.distance = 6 * p.order.length := rfl
  rw [State.measure, State.measure, distance] at bounded
  unfold Plan.bound
  omega

/-- What holds once `Run` has returned. -/
theorem settled_of_returned (valid : p.Valid) (ran : p.Reaches events s)
    (returned : s.control = .returned false) :
    ∀ id, (∃ cj, p.jobs.get? id = some cj) → Explains p s.statuses s.results id := by
  have inv := inv_of_reaches valid ran
  have placed := inv.placed
  rw [State.Placed, returned] at placed
  have landed : s.flight = [] := eq_nil_of_length_eq_zero (inv.running.symm.trans placed.2.2)
  intro id job
  rcases inv.core.covers id job with waits | ⟨g, member, -⟩ | ⟨st, settled⟩
  · rw [placed.2.1] at waits
    cases waits
  · rw [landed] at member
    cases member
  · exact inv.core.explained id st settled

end Runs

/-- Only a free slot lets a job in. -/
theorem step_working (e : Event) (ran : step p e s = some s')
    (within : s.working.length ≤ p.opt.maxParallel) : s'.working.length ≤ p.opt.maxParallel := by
  cases e with
  | main =>
    simp only [step, State.advance] at ran
    split at ran
    · split_ifs at ran <;> cases ran <;> exact within
    · split at ran
      · cases ran
        exact within
      · split_ifs at ran <;> cases ran
        · unfold State.take
          split <;> exact within
        · exact within
    · split_ifs at ran
      cases ran
      rw [length_append]
      assumption
    · split_ifs at ran
      · split at ran <;> cases ran
        exact within
      all_goals cases ran; exact within
    · cases ran
  | release i =>
    obtain ⟨c, -, rfl⟩ := Option.map_eq_some_iff.mp ran
    exact (length_eraseIdx_le _ _).trans within
  | send i =>
    obtain ⟨c, -, rfl⟩ := Option.map_eq_some_iff.mp ran
    exact within

/-- **No more jobs run than there are slots.**  In every state `Run` reaches, at most
`maxParallel` jobs hold a slot; what it counts as running are the jobs in flight, each once and
none with a status. -/
theorem slots_respected {p : Plan} (valid : p.Valid) (ran : p.Reaches events s) :
    s.working.length ≤ p.opt.maxParallel ∧ s.running = s.flight.length ∧
      (s.flight.map Prod.fst).Nodup ∧ ∀ job ∈ s.flight, s.statuses.get? job.1 = none := by
  have inv := inv_of_reaches valid ran
  refine ⟨?_, inv.running, ?_, fun job member => ?_⟩
  · exact trace_invariant (P := fun s : State => s.working.length ≤ p.opt.maxParallel)
      (fun e _ _ within ran => step_working e ran within) (Nat.zero_le _) ran
  · simpa [goingOf, Function.comp_def] using inv.core.goingNodup
  · exact inv.core.goingOpen _ (mem_map_of_mem member)

/-- A plan that meets the jobs in another order and has another number of slots. -/
def Plan.reordered (p : Plan) (order : List String) (maxParallel : Nat) : Plan :=
  { p with order := order, opt := { p.opt with maxParallel := maxParallel } }

/-- A build and a deployment that needs it, with one slot. -/
def buildThenDeploy : Plan where
  jobs := (Table.empty.put "build" { id := "build", baseID := "build" }).put "deploy"
    { id := "deploy", baseID := "deploy", needs := ["build"] }
  opt := { maxParallel := 1 }
  runJob cj _ _ := { jobID := cj.id, status := .success }
  order := ["deploy", "build"]

theorem buildThenDeploy_valid : buildThenDeploy.Valid := by
  have rows : ∀ row ∈ buildThenDeploy.jobs.rows, row.2.id = row.1 ∧ row.1 ∈ buildThenDeploy.order ∧
      ∀ need ∈ row.2.needs, need ∈ buildThenDeploy.order ∧
        (if need = "deploy" then 1 else 0) < if row.1 = "deploy" then 1 else 0 := by
    decide
  have listed : ∀ id ∈ buildThenDeploy.order, (buildThenDeploy.jobs.get? id).isSome = true := by
    decide
  exact {
    keyed := fun id cj held => (rows ⟨id, cj⟩ (mem_rows_iff.mpr held)).1
    own := by
      rintro need id ⟨cj, held, member⟩
      obtain ⟨-, -, needs⟩ := rows ⟨id, cj⟩ (mem_rows_iff.mpr held)
      exact Option.isSome_iff_exists.mp (listed need (needs need member).1)
    acyclic := by
      refine acyclic_of_rank (fun id => if id = "deploy" then 1 else 0) fun need id edge => ?_
      obtain ⟨cj, held, member⟩ := edge
      exact ((rows ⟨id, cj⟩ (mem_rows_iff.mpr held)).2.2 need member).2
    slots := Nat.le_refl 1
    orderNodup := by decide
    orders := fun id => ⟨fun there => Option.isSome_iff_exists.mp (listed id there),
      fun ⟨cj, held⟩ => (rows ⟨id, cj⟩ (mem_rows_iff.mpr held)).2.1⟩ }

/-- The build is started, finishes and is received; then the deployment. -/
def buildThenDeployEvents : List Event :=
  [.main, .main, .main, .main, .main, .release 0, .send 0, .main, .main, .main, .main, .main,
    .release 0, .send 0, .main, .main]

/-- Whether `Run` returned without a deadlock. -/
def Control.finished : Control → Bool
  | .returned deadlock => !deadlock
  | _ => false

theorem Control.eq_of_finished {c : Control} (finished : c.finished = true) :
    c = .returned false := by
  cases c with
  | returned deadlock => cases deadlock <;> first | rfl | cases finished
  | head | drain | acquire _ _ | receive => cases finished

/-- The build has the only slot. -/
theorem build_has_slot : ∃ s, buildThenDeploy.Reaches (buildThenDeployEvents.take 5) s ∧
    s.working.map Prod.fst = ["build"] ∧ s.working.length ≤ 1 := by
  have ran : ((trace (step buildThenDeploy) (buildThenDeployEvents.take 5)
      buildThenDeploy.start).any fun s => s.working.map Prod.fst = ["build"]) = true := by
    decide +kernel
  obtain ⟨s, ran, held⟩ := (Option.any_eq_true _ _).mp ran
  exact ⟨s, ran, of_decide_eq_true held, (slots_respected buildThenDeploy_valid ran).1⟩

end KiwiCI.Executor
