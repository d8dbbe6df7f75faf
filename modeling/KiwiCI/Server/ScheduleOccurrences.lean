import KiwiCI.Server.ScheduleFire

/-!
No scheduled occurrence fires twice, and when none is lost.

A claim is made in the step that commits its run, so a nominal minute never has two runs,
whatever ticks, triggers and failures come in between.  The marker is another matter: it
only remembers how far a schedule has come.  A tick that failed at one occurrence goes on
to the next of the same schedule, and a manual trigger does not look back at all; either
moves the marker past an occurrence that is still owed.  `occurrences_accounted_iff` says
that this is the only way an occurrence is lost.
-/

namespace KiwiCI.Server

open List Option

variable {sc : Schedule} {budget : ScanBudget} {result : Except FireError Bool}

/-- Two rows with the same occurrences and the same marker. -/
structure Schedule.Alike (sc sc' : Schedule) : Prop where
  id : sc.id = sc'.id
  spec : sc.spec = sc'.spec
  createdAt : sc.createdAt = sc'.createdAt
  lastRun : sc.lastRun = sc'.lastRun

theorem Schedule.Alike.refl (sc : Schedule) : sc.Alike sc := ⟨rfl, rfl, rfl, rfl⟩

theorem Schedule.Alike.trans {a c : Schedule} (first : a.Alike b) (second : b.Alike c) :
    a.Alike c where
  id := first.id.trans second.id
  spec := first.spec.trans second.spec
  createdAt := first.createdAt.trans second.createdAt
  lastRun := first.lastRun.trans second.lastRun

theorem Schedule.Alike.symm {b : Schedule} (alike : a.Alike b) : b.Alike a where
  id := alike.id.symm
  spec := alike.spec.symm
  createdAt := alike.createdAt.symm
  lastRun := alike.lastRun.symm

namespace State

variable {h : Host} {s s' : State} {id : String} {n : Nat}

/-- The occurrence has a committed run that claims it, or a tick gave it up because the
schedule was disabled, deleted or no longer trusted. -/
def Settled (s : State) (id : String) (n : Nat) : Prop :=
  (∃ run, s.occurrences.get? (id, n) = some run ∧ (s.runs.get? run).isSome) ∨ (id, n) ∈ s.skipped

/-- What the schedules promise: one run for a nominal minute, and nothing at or before the
marker left unsettled. -/
structure Accounted (h : Host) (s : State) : Prop where
  once : ∀ {run run' o}, s.runs.get? run = some o → s.runs.get? run' = some o → run = run'
  kept : ∀ {id sc cron n last}, s.schedules.get? id = some sc → h.cron sc.spec = some cron →
    cron.Occurs n → sc.createdAt < n → sc.lastRun = some last → n ≤ last → s.Settled id n

/-- An occurrence that is not settled lies behind the instant the next tick counts from. -/
theorem Accounted.due (accounted : Accounted h s)
    (row : s.schedules.get? id = some sc) (parsed : h.cron sc.spec = some cron)
    (occurs : cron.Occurs n) (later : sc.createdAt < n) (owed : ¬ s.Settled id n) :
    sc.base < n := by
  unfold Schedule.base
  cases marker : sc.lastRun with
  | none => exact later
  | some last =>
    apply Nat.lt_of_not_le
    intro passed
    exact owed (accounted.kept row parsed occurs later marker passed)

/-! ## What stays as it was -/

/-- Rows may go, but those that stay are still for the same expression and creation, and
what is settled stays settled. -/
structure Extends (s s' : State) : Prop where
  rows : ∀ {id sc'}, s'.schedules.get? id = some sc' → ∃ sc, s.schedules.get? id = some sc ∧
    sc'.id = sc.id ∧ sc'.spec = sc.spec ∧ sc'.createdAt = sc.createdAt
  settled : ∀ {id n}, s.Settled id n → s'.Settled id n

/-- Besides that, no marker moves. -/
structure Quiet (s s' : State) : Prop extends Extends s s' where
  markers : ∀ {id sc'}, s'.schedules.get? id = some sc' →
    ∃ sc, s.schedules.get? id = some sc ∧ sc'.Alike sc

theorem Quiet.of_markers (markers : ∀ {id sc'}, s'.schedules.get? id = some sc' →
      ∃ sc, s.schedules.get? id = some sc ∧ sc'.Alike sc)
    (settled : ∀ {id n}, s.Settled id n → s'.Settled id n) : Quiet s s' where
  rows row := by
    obtain ⟨sc, found, alike⟩ := markers row
    exact ⟨sc, found, alike.id, alike.spec, alike.createdAt⟩
  settled := settled
  markers := markers

/-- A step that leaves the rows alone is quiet once it keeps what is settled. -/
theorem Quiet.of_schedules (same : s'.schedules = s.schedules)
    (settled : ∀ {id n}, s.Settled id n → s'.Settled id n) : Quiet s s' :=
  .of_markers (fun {_ sc'} row => ⟨sc', same ▸ row, .refl sc'⟩) settled

theorem Quiet.trans {mid : State} (first : Quiet s mid) (second : Quiet mid s') : Quiet s s' := by
  refine .of_markers (fun {id sc'} row => ?_) fun held => second.settled (first.settled held)
  obtain ⟨between, found, alike⟩ := second.markers row
  obtain ⟨sc, original, before⟩ := first.markers found
  exact ⟨sc, original, alike.trans before⟩

theorem Quiet.kept (quiet : Quiet s s') (accounted : Accounted h s)
    (once : ∀ {run run' o}, s'.runs.get? run = some o → s'.runs.get? run' = some o → run = run') :
    Accounted h s' where
  once := once
  kept row parsed occurs later marker passed := by
    obtain ⟨sc, found, alike⟩ := quiet.markers row
    rw [alike.spec] at parsed
    rw [alike.createdAt] at later
    rw [alike.lastRun] at marker
    exact quiet.settled (accounted.kept found parsed occurs later marker passed)

/-! ## The ledger of runs and claims -/

/-- Every committed run holds the claim of its occurrence, every claim names a committed
run, and a row stands under its own id. -/
structure Ledger (s : State) : Prop where
  keyed : ∀ {id sc}, s.schedules.get? id = some sc → sc.id = id
  claimed : ∀ {run o}, s.runs.get? run = some o →
    s.occurrences.get? (o.scheduleID, o.nominal) = some run
  backed : ∀ {key run}, s.occurrences.get? key = some run → (s.runs.get? run).isSome

theorem Ledger.once (ledger : Ledger s) {run : RunID}
    (first : s.runs.get? run = some o) (second : s.runs.get? run' = some o) : run = run' := by
  have claim := ledger.claimed first
  rw [ledger.claimed second] at claim
  exact (some.inj claim).symm

theorem Ledger.settled (ledger : Ledger s) {run : RunID}
    (claim : s.occurrences.get? (id, n) = some run) : s.Settled id n :=
  .inl ⟨run, claim, ledger.backed claim⟩

/-- Rows may change in a step that keeps the ledger, as long as they keep their ids. -/
theorem Ledger.of_books (ledger : Ledger s) (runs : s'.runs = s.runs)
    (occurrences : s'.occurrences = s.occurrences)
    (keyed : ∀ {id sc}, s'.schedules.get? id = some sc → sc.id = id) : Ledger s' where
  keyed := keyed
  claimed found := by
    rw [occurrences]
    exact ledger.claimed (runs ▸ found)
  backed claim := by
    rw [runs]
    exact ledger.backed (occurrences ▸ claim)

theorem settled_congr (runs : s'.runs = s.runs) (occurrences : s'.occurrences = s.occurrences)
    (skipped : s'.skipped = s.skipped) : s'.Settled id n ↔ s.Settled id n := by
  rw [Settled, Settled, runs, occurrences, skipped]

section Commit

variable {run : RunID}

theorem Ledger.commitRun (ledger : Ledger s)
    (free : ∀ other, s.occurrences.get? (id, n) = some other → other = run) :
    Ledger (s.commitRun id n run) where
  keyed := ledger.keyed
  claimed {other o} found := by
    simp only [State.commitRun, Table.get?_put] at found ⊢
    by_cases new : other = run
    · rw [if_pos new, some.injEq] at found
      subst found
      rw [if_pos rfl, new]
    · rw [if_neg new] at found
      have claim := ledger.claimed found
      have elsewhere : (o.scheduleID, o.nominal) ≠ (id, n) := by
        intro same
        rw [same] at claim
        exact new (free other claim)
      rw [if_neg elsewhere, claim]
  backed {key other} claim := by
    simp only [State.commitRun, Table.get?_put] at claim ⊢
    by_cases new : other = run
    · rw [if_pos new]
      rfl
    · rw [if_neg new]
      split at claim
      · exact absurd (some.inj claim).symm new
      · exact ledger.backed claim

theorem settled_commitRun : (s.commitRun id n run).Settled id n :=
  .inl ⟨run, Table.get?_put_self _ _ _, by rw [State.commitRun, Table.get?_put_self]; rfl⟩

theorem Settled.commitRun (settled : s.Settled id' n') :
    (s.commitRun id n run).Settled id' n' := by
  by_cases same : (id', n') = (id, n)
  · obtain ⟨rfl, rfl⟩ := Prod.mk.inj same
    exact settled_commitRun
  rcases settled with ⟨other, claim, committed⟩ | given
  · refine .inl ⟨other, ?_, ?_⟩
    · rw [State.commitRun, Table.get?_put_ne _ _ same]
      exact claim
    · rw [State.commitRun, Table.get?_put]
      split
      · rfl
      · exact committed
  · exact .inr given

end Commit

/-! ## One fire -/

/-- What a fire does, whatever the world answers: only runs and claims change, and an
occurrence it does not report an error for is settled. -/
structure Fires (s s' : State) (id : String) (n : Nat) (result : Except FireError Bool) :
    Prop where
  ledger : Ledger s'
  schedules : s'.schedules = s.schedules
  workers : s'.workers = s.workers
  settled : ∀ {id n}, s.Settled id n → s'.Settled id n
  fired : ∀ {b}, result = .ok b → s'.Settled id n

theorem durableScheduleIdentity_alike
    (found : h.durableScheduleIdentity sc = some valid) : valid.Alike sc := by
  obtain ⟨⟨repoID, repoURL, forge⟩, -, rfl⟩ := map_eq_some_iff.mp found
  exact ⟨rfl, rfl, rfl, rfl⟩

variable (ledger : Ledger s)
include ledger

theorem Fires.refused (e : FireError) : Fires s s id n (.error e) where
  ledger := ledger
  schedules := rfl
  workers := rfl
  settled := fun held => held
  fired := nofun

theorem Fires.claimed {run : RunID}
    (claim : s.occurrences.get? (id, n) = some run) (result : Except FireError Bool) :
    Fires s s id n result where
  ledger := ledger
  schedules := rfl
  workers := rfl
  settled := fun held => held
  fired := fun _ => ledger.settled claim

theorem Fires.commitRun {run : RunID}
    (free : ∀ other, s.occurrences.get? (id, n) = some other → other = run)
    (result : Except FireError Bool) : Fires s (s.commitRun id n run) id n result where
  ledger := ledger.commitRun free
  schedules := rfl
  workers := rfl
  settled := Settled.commitRun
  fired := fun _ => settled_commitRun

theorem insertScheduleClaim_fires (run : RunID) (r : Reply) :
    Fires s (s.insertScheduleClaim h id n run r).2 id n
      (s.insertScheduleClaim h id n run r).1 := by
  unfold insertScheduleClaim
  split
  case isTrue taken =>
    obtain ⟨other, claim, -⟩ := (any_eq_true _ _).mp taken
    exact .claimed ledger claim _
  case isFalse free =>
    have own : ∀ other, s.occurrences.get? (id, n) = some other → other = run := by
      intro other claim
      simpa [claim] using free
    split
    · split
      · exact .refused ledger _
      · exact .commitRun ledger own _
    · exact .commitRun ledger own _

/-- With every run's claim in place there is nothing to adopt. -/
theorem scheduleOccurrenceRun_eq :
    s.scheduleOccurrenceRun id n = (s.occurrences.get? (id, n), s) := by
  unfold scheduleOccurrenceRun
  split
  case h_1 run claim => rw [claim]
  case h_2 unclaimed =>
    split
    case h_1 row found =>
      have carries : row.2 = ⟨id, n⟩ := by simpa using find?_some found
      have claim := ledger.claimed (Table.mem_rows_iff.mp (mem_of_find?_eq_some found))
      rw [carries, unclaimed] at claim
      cases claim
    case h_2 => rw [unclaimed]

theorem currentSchedule_id (found : s.currentSchedule h sc r = .ok current) : current.id = sc.id := by
  unfold currentSchedule at found
  split at found
  · cases found
    rfl
  · split at found
    · cases found
    · split at found
      · cases found
      case h_2 durable row =>
        split at found
        · cases found
          exact ledger.keyed row
        · cases found

theorem authorizedSchedule_id
    (found : s.authorizedSchedule h sc r = .ok current) : current.id = sc.id := by
  obtain ⟨row, read, found⟩ := bind_ok_iff.mp found
  obtain ⟨valid, canonical, found⟩ := bind_ok_iff.mp found
  have same := (durableScheduleIdentity_alike (orThrow_ok_iff.mp canonical)).id
  have held : valid = current := by
    exact pure_ok_iff.mp (check_ok_iff.mp found).2
  rw [← held, same, currentSchedule_id ledger read]

/-- `fireSchedule`, for every answer of the world. -/
theorem fireSchedule_fires (sc : Schedule) (n : Nat) (r : Reply) :
    Fires s (s.fireSchedule h sc n r).2 sc.id n (s.fireSchedule h sc n r).1 := by
  unfold fireSchedule
  split
  · exact .refused ledger _
  case h_2 current found =>
    rw [← authorizedSchedule_id ledger found]
    -- The adoption finds the claim, if there is one, and leaves the state alone.
    have adopted : s.adopt h current.id n = (none, s) ∨
        ∃ run, s.adopt h current.id n = (some run, s) ∧
          s.occurrences.get? (current.id, n) = some run := by
      unfold adopt
      cases h.mode with
      | database => exact .inl rfl
      | files =>
        simp only [scheduleOccurrenceRun_eq ledger]
        cases s.occurrences.get? (current.id, n) with
        | none => exact .inl rfl
        | some run => exact .inr ⟨run, rfl, rfl⟩
    rcases adopted with free | ⟨run, taken, claim⟩
    · simp only [free]
      split
      · exact .refused ledger _
      · exact insertScheduleClaim_fires ledger _ r
    · simp only [taken]
      exact .claimed ledger claim _

end State

/-! ## What a tick collects -/

section Collect

variable {h : Host} {clock now : Nat} {seen : List (String × Nat)} {cron : CronSchedule}

/-- The occurrence `n` of `cron` comes after `base`, and every one in between was seen. -/
structure FirstUnseen (cron : CronSchedule) (id : String) (seen : List (String × Nat))
    (base n : Nat) : Prop where
  occurs : cron.Occurs n
  later : base < n
  between : ∀ m, cron.Occurs m → base < m → m < n → (id, m) ∈ seen

theorem FirstUnseen.mono {id : String}
    (first : FirstUnseen cron id seen base n) (grows : ∀ key ∈ seen, key ∈ more) :
    FirstUnseen cron id more base n where
  occurs := first.occurs
  later := first.later
  between m occurs after before := grows _ (first.between m occurs after before)

theorem nextDueOccurrence_first {id : String}
    (ahead : base ≤ from') (passed : ∀ m, cron.Occurs m → base < m → m ≤ from' → (id, m) ∈ seen)
    (found : (nextDueOccurrence cron id now seen steps from' budget).1 = some n) :
    FirstUnseen cron id seen base n := by
  induction steps generalizing from' budget with
  | zero => cases found
  | succ steps ih =>
    unfold nextDueOccurrence at found
    split at found
    · cases found
    case h_2 next left searched =>
      have hit : (cron.nextBudget from' budget).1 = some next := by rw [searched]
      obtain ⟨occurs, later, least⟩ := CronSchedule.next_least hit
      -- Nothing lies between the two occurrences, so what is before `next` was passed.
      have upTo : ∀ m, cron.Occurs m → base < m → m < next → (id, m) ∈ seen := by
        intro m other after before
        apply passed m other after
        apply Nat.le_of_not_lt
        intro beyond
        have := least m other beyond
        omega
      split at found
      · cases found
      · split at found
        case isTrue known =>
          refine ih (by omega) (fun m other after before => ?_) found
          rcases before.eq_or_lt with rfl | before
          · exact known
          · exact upTo m other after before
        case isFalse =>
          cases found
          exact ⟨occurs, by omega, upTo⟩

theorem parseScheduleSpec_cron
    (parsed : h.parseScheduleSpec clock spec = some cron) : h.cron spec = some cron := by
  unfold Host.parseScheduleSpec at parsed
  split at parsed
  · cases parsed
  case h_2 found =>
    split at parsed
    · cases parsed
    · rw [found, parsed]

/-- A due occurrence belongs to one of the rows and is the first of its schedule that was
not seen. -/
structure Due (h : Host) (rows : List Schedule) (seen : List (String × Nat))
    (due : Schedule × Nat) : Prop where
  row : due.1 ∈ rows
  first : ∃ cron, h.cron due.1.spec = some cron ∧
    FirstUnseen cron due.1.id seen due.1.base due.2

theorem nextDueSchedule_first
    (found : (nextDueSchedule h clock now seen rows budget).1 = some due) :
    Due h rows seen due := by
  induction rows generalizing budget with
  | nil => cases found
  | cons sc rest ih =>
    unfold nextDueSchedule at found
    split at found
    · obtain ⟨member, first⟩ := ih found
      exact ⟨mem_cons_of_mem _ member, first⟩
    case h_2 cron parsed =>
      split at found
      case h_1 next left searched =>
        cases found
        have hit : (nextDueOccurrence cron sc.id now seen 64 sc.base budget).1 = some next := by
          rw [searched]
        have read : h.cron sc.spec = some cron := by
          split at parsed
          · exact parseScheduleSpec_cron parsed
          · cases parsed
        refine ⟨mem_cons_self, cron, read, nextDueOccurrence_first le_rfl ?_ hit⟩
        intro m _ after before
        omega
      case h_2 =>
        obtain ⟨member, first⟩ := ih found
        exact ⟨mem_cons_of_mem _ member, first⟩

/-- Every collected occurrence is preceded by the collected occurrences of its schedule. -/
theorem collectDue_first
    (start : ∀ due ∈ dues, Due h rows (dues.map fun d => (d.1.id, d.2)) due) :
    ∀ due ∈ collectDue h clock now rows steps dues budget,
      Due h rows ((collectDue h clock now rows steps dues budget).map fun d => (d.1.id, d.2))
        due := by
  induction steps generalizing dues budget with
  | zero => exact start
  | succ steps ih =>
    unfold collectDue
    split
    · exact start
    case h_2 due left searched =>
      have hit : (nextDueSchedule h clock now (dues.map fun d => (d.1.id, d.2)) rows budget).1 =
          some due := by rw [searched]
      have grows : ∀ key ∈ dues.map (fun d => (d.1.id, d.2)),
          key ∈ (dues ++ [due]).map (fun d => (d.1.id, d.2)) := by
        intro key member
        rw [map_append]
        exact mem_append_left _ member
      apply ih
      intro other member
      rcases mem_append.mp member with old | new
      · obtain ⟨row, cron, parsed, first⟩ := start other old
        exact ⟨row, cron, parsed, first.mono grows⟩
      · obtain rfl := mem_singleton.mp new
        obtain ⟨row, cron, parsed, first⟩ := nextDueSchedule_first hit
        exact ⟨row, cron, parsed, first.mono grows⟩

end Collect

/-! ## Workers -/

/-- The occurrence an item of work is about. -/
def Work.key : Work → String × Nat
  | .fire sc nominal => (sc.id, nominal)
  | .advance id nominal => (id, nominal)

namespace State

variable {h : Host} {s s' : State} {id : String} {n : Nat} {w : Worker}

/-- What is known of a list of collected occurrences in a later state: each is one of its
schedule, and every earlier one is settled or collected too. -/
def Collected (h : Host) (s : State) (collected : List (String × Nat)) : Prop :=
  ∀ id n sc, (id, n) ∈ collected → s.schedules.get? id = some sc →
    ∃ cron, h.cron sc.spec = some cron ∧ cron.Occurs n ∧
      ∀ m, cron.Occurs m → sc.createdAt < m → m < n → s.Settled id m ∨ (id, m) ∈ collected

/-- A worker's list: markers only move for settled occurrences, and a tick only works on
what it collected. -/
structure Diligent (h : Host) (s : State) (w : Worker) : Prop where
  advances : ∀ {id n}, .advance id n ∈ w.work → s.Settled id n
  collected : w.manual = false → Collected h s w.collected
  own : w.manual = false → ∀ item ∈ w.work, item.key ∈ w.collected

theorem Collected.mono (known : Collected h s collected)
    (ext : Extends s s') : Collected h s' collected := by
  intro id n sc member row
  obtain ⟨old, found, -, sameSpec, sameCreated⟩ := ext.rows row
  obtain ⟨cron, parsed, occurs, earlier⟩ := known id n old member found
  rw [sameSpec, sameCreated]
  exact ⟨cron, parsed, occurs, fun m other after before =>
    (earlier m other after before).imp_left ext.settled⟩

theorem Diligent.mono (diligent : Diligent h s w) (ext : Extends s s') : Diligent h s' w where
  advances member := ext.settled (diligent.advances member)
  collected tick := (diligent.collected tick).mono ext
  own := diligent.own

/-- What holds in every state a run passes through as long as nothing has been lost. -/
structure Sound (h : Host) (s : State) : Prop where
  ledger : Ledger s
  workers : ∀ {k w}, s.workers.get? k = some w → Diligent h s w

/-- The state after a step is sound again, and no marker has moved. -/
structure Calm (h : Host) (s s' : State) : Prop where
  sound : Sound h s'
  quiet : Quiet s s'

theorem Sound.calm (sound : Sound h s) : Calm h s s := ⟨sound, .of_schedules rfl fun held => held⟩

theorem Sound.put (sound : Sound h s) (ext : Extends s s') (ledger : Ledger s')
    (workers : s'.workers = s.workers.put k w) (diligent : Diligent h s' w) : Sound h s' where
  ledger := ledger
  workers {k' other} found := by
    rw [workers, Table.get?_put] at found
    split at found
    · cases found
      exact diligent
    · exact (sound.workers found).mono ext

theorem Sound.same (sound : Sound h s) (ext : Extends s s') (ledger : Ledger s')
    (workers : s'.workers = s.workers) : Sound h s' where
  ledger := ledger
  workers found := (sound.workers (workers ▸ found)).mono ext

theorem Sound.assign (sound : Sound h s) (k : Nat) (diligent : Diligent h s w) :
    Calm h s { s with workers := s.workers.put k w } := by
  have quiet : Quiet s { s with workers := s.workers.put k w } :=
    .of_schedules rfl (settled_congr rfl rfl rfl).mpr
  refine ⟨sound.put quiet.toExtends ?_ rfl (diligent.mono quiet.toExtends), quiet⟩
  exact sound.ledger.of_books rfl rfl sound.ledger.keyed

/-- A worker's list changes after a fire or a marker's write: it keeps some of its items
and may owe the advance past an occurrence it has just settled. -/
theorem Sound.putWork (sound : Sound h s) {mid : State}
    (busy : s.workers.get? k = some w) (ext : Extends s mid) (ledger : Ledger mid)
    (workers : mid.workers = s.workers)
    (items : ∀ item ∈ work, item ∈ w.work ∨
      ∃ old ∈ w.work, item = .advance old.key.1 old.key.2 ∧ mid.Settled old.key.1 old.key.2) :
    Sound h (mid.putWork k w work) := by
  have known := (sound.workers busy).mono ext
  have settles : ∀ {id n}, mid.Settled id n → (mid.putWork k w work).Settled id n :=
    (settled_congr rfl rfl rfl).mpr
  have quiet : Quiet mid (mid.putWork k w work) := .of_schedules rfl settles
  have placed : (mid.putWork k w work).workers = s.workers.put k { w with work := work } := by
    rw [← workers]
    rfl
  refine sound.put ⟨fun row => ext.rows row, fun held => settles (ext.settled held)⟩
    (ledger.of_books rfl rfl ledger.keyed) placed ⟨?_, ?_, ?_⟩
  · intro id n member
    rcases items _ member with old | ⟨old, -, shape, settled⟩
    · exact settles (known.advances old)
    · cases shape
      exact settles settled
  · exact fun tick => (known.collected tick).mono quiet.toExtends
  · intro tick item member
    rcases items _ member with old | ⟨old, inList, rfl, -⟩
    · exact known.own tick item old
    · exact known.own tick old inList

/-! ## Starting work -/

theorem reconcileOccurrences_eq (ledger : Ledger s) : s.reconcileOccurrences = s := by
  refine foldlRecOn (motive := (· = s)) s.runs.rows reconcileRun rfl fun s' same row member => ?_
  subst same
  have claim := ledger.claimed (Table.mem_rows_iff.mp member)
  unfold reconcileRun
  split
  · rfl
  · rw [if_pos (by rw [claim]; rfl)]

/-- A row a tick evaluates is the stored one, as far as its occurrences go. -/
def Mirrors (s : State) (rows : Table String Schedule) : Prop :=
  ∀ id sc, rows.get? id = some sc → ∃ row, s.schedules.get? id = some row ∧ sc.Alike row

theorem validateLoaded_alike (sc : Schedule) : (h.validateLoaded sc).Alike sc := by
  unfold Host.validateLoaded
  split
  · split
    · exact durableScheduleIdentity_alike ‹_›
    · exact ⟨rfl, rfl, rfl, rfl⟩
  · exact ⟨rfl, rfl, rfl, rfl⟩

theorem leaveStored_alike (saved : Bool) (sc : Schedule) : (h.leaveStored saved sc).Alike sc := by
  unfold Host.leaveStored
  split
  · exact ⟨rfl, rfl, rfl, rfl⟩
  · exact .refl sc

theorem get?_reloadSchedules (saved : String → Bool) (id : String) :
    (s.reloadSchedules h saved).2.schedules.get? id =
      (s.schedules.get? id).map (h.leaveStored (saved id)) := by
  rw [reloadSchedules, Table.get?_map]

/-- The refresh of a tick: it may disable rows, and serves rows that mirror the store. -/
theorem discover_spec (ledger : Ledger s) (read : Bool) (saved : String → Bool) :
    Quiet s (s.discover h read saved).2 ∧ Ledger (s.discover h read saved).2 ∧
      (s.discover h read saved).2.workers = s.workers ∧
      ∀ rows, (s.discover h read saved).1 = some rows →
        Mirrors (s.discover h read saved).2 rows := by
  have unchanged : Quiet s s := .of_schedules rfl fun held => held
  unfold discover
  cases h.mode with
  | files =>
    simp only [reconcileOccurrences_eq ledger]
    refine ⟨unchanged, ledger, trivial, fun rows served => ?_⟩
    cases served
    exact fun _ sc row => ⟨sc, row, .refl sc⟩
  | database =>
    cases read with
    | false => exact ⟨unchanged, ledger, rfl, nofun⟩
    | true =>
      simp only [if_true]
      have stored : ∀ {id sc'}, (s.reloadSchedules h saved).2.schedules.get? id = some sc' →
          ∃ sc, s.schedules.get? id = some sc ∧ sc'.Alike sc := by
        intro id sc' row
        rw [get?_reloadSchedules] at row
        obtain ⟨sc, found, rfl⟩ := map_eq_some_iff.mp row
        exact ⟨sc, found, leaveStored_alike _ sc⟩
      refine ⟨.of_markers stored (settled_congr rfl rfl rfl).mpr,
        ledger.of_books rfl rfl fun {id sc} row => ?_, rfl, fun rows served => ?_⟩
      · obtain ⟨old, found, alike⟩ := stored row
        rw [alike.id, ledger.keyed found]
      · cases served
        intro id sc row
        rw [reloadSchedules, Table.get?_map] at row
        obtain ⟨old, found, rfl⟩ := map_eq_some_iff.mp row
        refine ⟨h.leaveStored (saved id) old, by rw [get?_reloadSchedules, found]; rfl, ?_⟩
        exact (validateLoaded_alike old).trans (leaveStored_alike _ old).symm

/-- What a tick collects from rows that mirror the store, nothing having been lost so far. -/
theorem collected_of_mirror (accounted : Accounted h s) (ledger : Ledger s)
    (mirrors : Mirrors s rows) {dues : List (Schedule × Nat)}
    (first : ∀ due ∈ dues,
      Due h (rows.sorted.map (·.2)) (dues.map fun d => (d.1.id, d.2)) due) :
    Collected h s (dues.map fun d => (d.1.id, d.2)) := by
  intro id n row member found
  obtain ⟨⟨sc, nominal⟩, due, same⟩ := mem_map.mp member
  obtain ⟨rfl, rfl⟩ := Prod.mk.inj same
  obtain ⟨served, cron, parsed, unseen⟩ := first _ due
  obtain ⟨⟨key, sc'⟩, entry, rfl⟩ := mem_map.mp served
  obtain ⟨own, stored, alike⟩ := mirrors key sc' (Table.mem_sorted.mp entry)
  -- The row under the due's id is the stored row the served one mirrors.
  have under : key = sc'.id := by rw [alike.id, ledger.keyed stored]
  rw [under, found] at stored
  obtain rfl := some.inj stored
  rw [← alike.spec]
  refine ⟨cron, parsed, unseen.occurs, fun m occurs after before => ?_⟩
  by_cases passed : ∃ last, row.lastRun = some last ∧ m ≤ last
  · obtain ⟨last, marker, behind⟩ := passed
    exact .inl (accounted.kept found (alike.spec ▸ parsed) occurs after marker behind)
  · refine .inr (unseen.between m occurs ?_ before)
    unfold Schedule.base
    rw [alike.lastRun, alike.createdAt]
    cases marker : row.lastRun with
    | none => exact after
    | some last =>
      apply Nat.lt_of_not_le
      exact fun behind => passed ⟨last, marker, behind⟩

theorem Accounted.of_quiet (accounted : Accounted h s) (quiet : Quiet s s') (ledger : Ledger s') :
    Accounted h s' :=
  quiet.kept accounted ledger.once

theorem startTick_sound (sound : Sound h s) (accounted : Accounted h s) (k now clock : Nat)
    (read : Bool) (saved : String → Bool) :
    Calm h s (s.startTick h k now clock read saved) := by
  obtain ⟨quiet, ledger, workers, mirrors⟩ := discover_spec (h := h) sound.ledger read saved
  unfold startTick
  generalize discovered : s.discover h read saved = found at quiet ledger workers mirrors
  obtain ⟨served, mid⟩ := found
  cases served with
  | none => exact ⟨sound.same quiet.toExtends ledger workers, quiet⟩
  | some rows =>
    have collected : Collected h _ ((dueOccurrences h clock now rows).map fun d => (d.1.id, d.2)) :=
      collected_of_mirror (accounted.of_quiet quiet ledger) ledger (mirrors rows rfl)
        (collectDue_first fun _ none => absurd none not_mem_nil)
    have held := (sound.same quiet.toExtends ledger workers).assign k
      (w := tickWorker (dueOccurrences h clock now rows))
      ⟨fun member => ?_, fun _ => collected, fun _ item member => ?_⟩
    · exact ⟨held.1, quiet.trans held.2⟩
    · obtain ⟨due, -, shape⟩ := mem_map.mp member
      cases shape
    · obtain ⟨due, inList, rfl⟩ := mem_map.mp member
      exact mem_map.mpr ⟨due, inList, rfl⟩

theorem startTrigger_sound (sound : Sound h s) (k : Nat) (id : String) (now : Nat)
    (allowed trusted : Bool) :
    Calm h s (s.startTrigger k id now allowed trusted) := by
  unfold startTrigger
  split
  · exact sound.calm
  · split
    · exact sound.calm
    · split
      · exact sound.calm
      · refine sound.assign k ⟨fun member => ?_, by simp, by simp⟩
        cases mem_singleton.mp member

/-! ## Steps -/

section Work

variable {k : Nat} {rest : List Work} {sc : Schedule}

section Fire

variable (sound : Sound h s) (busy : s.workers.get? k = some w)
  (next : w.work = .fire sc n :: rest)

include sound busy next

theorem Fires.putWork (fires : Fires s s' sc.id n result) (mid : State)
    (schedules : mid.schedules = s'.schedules) (workers : mid.workers = s'.workers) (ledger : Ledger mid)
    (settled : ∀ {id n}, s'.Settled id n → mid.Settled id n)
    (items : ∀ item ∈ work, item ∈ rest ∨ item = .advance sc.id n ∧ mid.Settled sc.id n) :
    Calm h s (mid.putWork k w work) := by
  have quiet : Quiet s mid :=
    .of_schedules (schedules.trans fires.schedules) fun held => settled (fires.settled held)
  have placed : Quiet mid (mid.putWork k w work) :=
    .of_schedules rfl (settled_congr rfl rfl rfl).mpr
  refine ⟨sound.putWork busy quiet.toExtends ledger (workers.trans fires.workers) ?_,
    quiet.trans placed⟩
  intro item member
  rw [next]
  rcases items item member with old | ⟨shape, done⟩
  · exact .inl (mem_cons_of_mem _ old)
  · exact .inr ⟨.fire sc n, mem_cons_self, shape, done⟩

/-- After a fire the worker goes on with what is left of its list, and past the occurrence
if that is settled. -/
theorem Fires.goesOn (fires : Fires s s' sc.id n result)
    (items : ∀ item ∈ work, item ∈ rest ∨ item = .advance sc.id n ∧ s'.Settled sc.id n) :
    Calm h s (s'.putWork k w work) :=
  fires.putWork sound busy next s' rfl rfl fires.ledger (fun held => held) items

theorem settleTick_sound (fires : Fires s s' sc.id n result) :
    Calm h s (s'.settleTick k w sc.id n rest result) := by
  -- The occurrence is recorded as skipped before the worker goes on to the marker.
  have skipping : Calm h s ((s'.skip sc.id n).putWork k w (.advance sc.id n :: rest)) := by
    refine fires.putWork sound busy next (s'.skip sc.id n) rfl rfl ?_ ?_ fun item member => ?_
    · exact fires.ledger.of_books rfl rfl fires.ledger.keyed
    · exact fun held => held.imp_right (mem_cons_of_mem _)
    · exact (mem_cons.mp member).symm.imp_right fun shape =>
        ⟨shape, .inr mem_cons_self⟩
  cases result with
  | ok b =>
    refine fires.goesOn sound busy next fun item member => ?_
    exact (mem_cons.mp member).symm.imp_right fun shape => ⟨shape, fires.fired rfl⟩
  | error e =>
    cases e
    case disabled | gone | unauthorized => exact skipping
    case staleLeader => exact fires.goesOn sound busy next nofun
    all_goals exact fires.goesOn sound busy next fun _ member => .inl member

theorem settleTrigger_sound (fires : Fires s s' sc.id n result) :
    Calm h s (s'.settleTrigger k w sc.id n rest result) := by
  unfold settleTrigger
  split
  · refine fires.goesOn sound busy next fun item member => ?_
    exact (mem_cons.mp member).symm.imp_right fun shape => ⟨shape, fires.fired rfl⟩
  all_goals
    exact fires.goesOn sound busy next fun _ member => .inl member

theorem doWork_fire (r : Reply) :
    Calm h s (s.doWork h k w r) := by
  have fires := fireSchedule_fires (h := h) sound.ledger sc n r
  rw [doWork, next]
  simp only
  split
  · exact settleTrigger_sound sound busy next fires
  · exact settleTick_sound sound busy next fires

end Fire

theorem get?_advanceSchedulePast (id' : String) :
    (s.advanceSchedulePast id n).schedules.get? id' =
      if id' = id then (s.schedules.get? id).map fun sc =>
        { sc with lastRun := some (max (sc.lastRun.getD 0) n) }
      else s.schedules.get? id' := by
  rw [advanceSchedulePast, Table.get?_modify]

theorem extends_advanceSchedulePast : Extends s (s.advanceSchedulePast id n) where
  rows {id' sc'} row := by
    rw [get?_advanceSchedulePast] at row
    split at row
    case isTrue same =>
      obtain ⟨sc, found, rfl⟩ := map_eq_some_iff.mp row
      exact ⟨sc, same ▸ found, rfl, rfl, rfl⟩
    case isFalse => exact ⟨sc', row, rfl, rfl, rfl⟩
  settled := (settled_congr rfl rfl rfl).mpr

theorem Ledger.keyed_of_extends (ledger : Ledger s) (ext : Extends s s')
    (row : s'.schedules.get? id = some sc) : sc.id = id := by
  obtain ⟨old, found, same, -⟩ := ext.rows row
  rw [same, ledger.keyed found]

theorem doWork_advance (sound : Sound h s) (busy : s.workers.get? k = some w)
    (next : w.work = .advance id n :: rest) (r : Reply) : Sound h (s.doWork h k w r) := by
  rw [doWork, next]
  have kept : ∀ item ∈ rest, item ∈ w.work ∨ ∃ old ∈ w.work,
      item = .advance old.key.1 old.key.2 ∧ s.Settled old.key.1 old.key.2 := by
    intro item member
    rw [next]
    exact .inl (mem_cons_of_mem _ member)
  cases r.durable with
  | false =>
    exact sound.putWork busy ⟨fun {_ sc} row => ⟨sc, row, rfl, rfl, rfl⟩, fun held => held⟩
      sound.ledger rfl kept
  | true =>
    refine sound.putWork busy extends_advanceSchedulePast ?_ rfl kept
    exact sound.ledger.of_books rfl rfl
      fun row => sound.ledger.keyed_of_extends extends_advanceSchedulePast row

end Work

/-- The event writes a marker: a worker's next item is the advance past a nominal, and the
write goes through. -/
def Advancing (e : Event) (s : State) (w : Worker) (id : String) (n : Nat) : Prop :=
  ∃ k reply rest, e = .work k reply ∧ s.workers.get? k = some w ∧
    w.work = .advance id n :: rest ∧ reply.durable = true

/-- Everything an event can do to the markers: move one of them past a nominal, or leave
them all where they are. -/
inductive Moves (s : State) (e : Event) (s' : State) : Prop where
  | quiet (none : ∀ w id n, ¬ Advancing e s w id n) (quiet : Quiet s s')
  | marker (w : Worker) (id : String) (n : Nat) (advancing : Advancing e s w id n)
      (schedules : s'.schedules = (s.advanceSchedulePast id n).schedules)
      (settled : ∀ {id n}, s'.Settled id n ↔ s.Settled id n)

theorem not_advancing (other : ∀ k reply, e ≠ .work k reply) :
    ∀ w id n, ¬ Advancing e s w id n := by
  rintro w id n ⟨k, reply, rest, rfl, -⟩
  exact other k reply rfl

theorem applyChange_sound (sound : Sound h s) (c : Change) :
    Calm h s (s.applyChange c) := by
  have quiet : Quiet s (s.applyChange c) := by
    refine .of_markers (fun {id sc'} row => ?_) ?_
    · cases c with
      | setEnabled target enabled =>
        rw [applyChange, Table.get?_modify] at row
        split at row
        case isTrue same =>
          obtain ⟨sc, found, rfl⟩ := map_eq_some_iff.mp row
          exact ⟨sc, same ▸ found, rfl, rfl, rfl, rfl⟩
        case isFalse => exact ⟨sc', row, .refl sc'⟩
      | remove target =>
        rw [applyChange, Table.get?_delete] at row
        split at row
        · cases row
        · exact ⟨sc', row, .refl sc'⟩
    · cases c <;> exact (settled_congr rfl rfl rfl).mpr
  have books : Ledger (s.applyChange c) := by
    cases c <;> exact sound.ledger.of_books rfl rfl
      fun row => sound.ledger.keyed_of_extends quiet.toExtends row
  refine ⟨sound.same quiet.toExtends books ?_, quiet⟩
  cases c <;> rfl

theorem Calm.moves (calm : Calm h s s') (none : ∀ w id n, ¬ Advancing e s w id n) :
    Sound h s' ∧ Moves s e s' := ⟨calm.sound, .quiet none calm.quiet⟩

theorem step_moves (sound : Sound h s) (accounted : Accounted h s) (e : Event) :
    Sound h (s.step h e) ∧ Moves s e (s.step h e) := by
  cases e with
  | tick k now clock read saved =>
    refine Calm.moves ?_ (not_advancing (by simp))
    simp only [step]
    split
    · exact sound.calm
    · exact startTick_sound sound accounted k now clock read saved
  | trigger k id now allowed trusted =>
    refine Calm.moves ?_ (not_advancing (by simp))
    simp only [step]
    split
    · exact sound.calm
    · exact startTrigger_sound sound k id now allowed trusted
  | change c => exact (applyChange_sound sound c).moves (not_advancing (by simp))
  | work k reply =>
    simp only [step]
    cases busy : s.workers.get? k with
    | none =>
      refine sound.calm.moves ?_
      rintro w id n ⟨k', reply', rest, same, found, -⟩
      cases same
      rw [busy] at found
      cases found
    | some w =>
      -- The only worker the event can be about is `w`, with its first item.
      have first : ∀ {w' id n}, Advancing (.work k reply) s w' id n →
          w' = w ∧ ∃ rest, w.work = .advance id n :: rest ∧ reply.durable = true := by
        rintro w' id n ⟨k', reply', rest, same, found, next, durable⟩
        cases same
        rw [busy] at found
        cases found
        exact ⟨rfl, rest, next, durable⟩
      cases next : w.work with
      | nil =>
        simp only [doWork, next]
        refine sound.calm.moves fun w' id n advancing => ?_
        obtain ⟨-, rest, work, -⟩ := first advancing
        rw [next] at work
        cases work
      | cons item rest =>
        cases item with
        | fire sc n =>
          refine (doWork_fire sound busy next reply).moves fun w' id n advancing => ?_
          obtain ⟨-, rest, work, -⟩ := first advancing
          rw [next] at work
          cases work
        | advance id n =>
          refine ⟨doWork_advance sound busy next reply, ?_⟩
          simp only [doWork, next]
          cases durable : reply.durable with
          | false =>
            refine .quiet (fun w' id n advancing => ?_)
              (.of_schedules rfl (settled_congr rfl rfl rfl).mpr)
            obtain ⟨-, -, -, goes⟩ := first advancing
            rw [durable] at goes
            cases goes
          | true =>
            exact .marker w id n ⟨k, reply, rest, rfl, busy, next, durable⟩ rfl
              (settled_congr rfl rfl rfl)

/-! ## When nothing is lost -/

/-- An occurrence of the row the worker could have seen coming: one the tick collected
itself, or for a manual trigger one that has come up since the marker. -/
def Ahead (h : Host) (w : Worker) (sc : Schedule) (id : String) (m : Nat) : Prop :=
  if w.manual then ∃ cron, h.cron sc.spec = some cron ∧ cron.Occurs m ∧ sc.base < m
  else (id, m) ∈ w.collected

/-- Writing the marker overtakes an occurrence: an earlier one since the creation of the
schedule is still owed. -/
def Overtakes (h : Host) (s : State) (w : Worker) (sc : Schedule) (id : String) (n m : Nat) :
    Prop :=
  m < n ∧ sc.createdAt < m ∧ Ahead h w sc id m ∧ ¬ s.Settled id m

/-- The event overtakes nothing. -/
def InOrder (h : Host) (e : Event) (s : State) : Prop :=
  ∀ w id n sc, Advancing e s w id n → s.schedules.get? id = some sc →
    ∀ m, ¬ Overtakes h s w sc id n m

/-- Once a marker has been written in order, nothing at or before it is owed. -/
theorem kept_of_inOrder (sound : Sound h s) (accounted : Accounted h s)
    (advancing : Advancing e s w id n) (inOrder : InOrder h e s)
    (row : s.schedules.get? id = some sc)
    (parsed : h.cron sc.spec = some cron) (occurs : cron.Occurs m)
    (later : sc.createdAt < m) (passed : m ≤ max (sc.lastRun.getD 0) n) : s.Settled id m := by
  by_contra owed
  have ahead : sc.base < m := accounted.due row parsed occurs later owed
  -- The marker was behind `m`, so it is the new nominal that passes it.
  have before : m ≤ n := by
    unfold Schedule.base at ahead
    cases marker : sc.lastRun with
    | none => simpa [marker] using passed
    | some last =>
      rw [marker, getD_some] at ahead passed
      omega
  have ⟨k, reply, rest, _, busy, next, _⟩ := advancing
  have diligent := sound.workers busy
  have done : s.Settled id n := diligent.advances (next ▸ mem_cons_self)
  have earlier : m < n := before.lt_of_ne fun same => owed (same ▸ done)
  apply inOrder w id n sc advancing row m
  refine ⟨earlier, later, ?_, owed⟩
  unfold Ahead
  split
  case isTrue => exact ⟨cron, parsed, occurs, ahead⟩
  case isFalse tick =>
    have tick : w.manual = false := by simpa using tick
    have own : (id, n) ∈ w.collected :=
      diligent.own tick (.advance id n) (next ▸ mem_cons_self)
    obtain ⟨read, parsed', -, covered⟩ := diligent.collected tick id n sc own row
    obtain rfl := some.inj (parsed'.symm.trans parsed)
    exact (covered m occurs later earlier).resolve_left owed

/-- Overtaking is losing: the overtaken occurrence lies behind the marker. -/
theorem inOrder_of_kept (sound : Sound h s) {e : Event} (advancing : Advancing e s w id n)
    (kept : ∀ {sc cron m}, s.schedules.get? id = some sc → h.cron sc.spec = some cron →
      cron.Occurs m → sc.createdAt < m → m ≤ max (sc.lastRun.getD 0) n → s.Settled id m) :
    InOrder h e s := by
  rintro w' id' n' sc advancing' row m ⟨earlier, later, ahead, owed⟩
  -- The event writes one marker only.
  obtain ⟨k, reply, rest, rfl, busy, next, -⟩ := advancing
  obtain ⟨k', reply', rest', same, busy', next', -⟩ := advancing'
  cases same
  obtain rfl := some.inj (busy.symm.trans busy')
  rw [next] at next'
  cases next'
  apply owed
  unfold Ahead at ahead
  split at ahead
  case isTrue =>
    obtain ⟨cron, parsed, occurs, -⟩ := ahead
    exact kept row parsed occurs later (by omega)
  case isFalse tick =>
    obtain ⟨cron, parsed, occurs, -⟩ :=
      (sound.workers busy).collected (by simpa using tick) id m sc ahead row
    exact kept row parsed occurs later (by omega)

/-- After one event nothing is lost if and only if the event overtook nothing. -/
theorem step_accounted_iff (sound : Sound h s) (accounted : Accounted h s) (e : Event) :
    Accounted h (s.step h e) ↔ InOrder h e s := by
  obtain ⟨after, moves⟩ := step_moves sound accounted e
  cases moves with
  | quiet none quiet =>
    have still := accounted.of_quiet quiet after.ledger
    exact iff_of_true still fun w id n sc advancing => absurd advancing (none w id n)
  | marker w id n advancing schedules settled =>
    constructor
    · intro next
      refine inOrder_of_kept sound advancing fun {sc cron m} row parsed occurs later passed => ?_
      have moved : (s.step h e).schedules.get? id =
          some { sc with lastRun := some (max (sc.lastRun.getD 0) n) } := by
        rw [schedules, get?_advanceSchedulePast, if_pos rfl, row]
        rfl
      exact settled.mp (next.kept moved parsed occurs later rfl passed)
    · intro inOrder
      refine ⟨after.ledger.once, ?_⟩
      intro id' sc' cron m last row parsed occurs later marker passed
      rw [schedules, get?_advanceSchedulePast] at row
      apply settled.mpr
      split at row
      case isTrue same =>
        subst same
        obtain ⟨sc, found, rfl⟩ := map_eq_some_iff.mp row
        cases marker
        exact kept_of_inOrder sound accounted advancing inOrder found parsed occurs later passed
      case isFalse => exact accounted.kept row parsed occurs later marker passed

/-! ## Whole histories -/

/-- The schedules have just been created: nothing has run, and every row stands under its
own id. -/
structure Fresh (s : State) : Prop where
  keyed : ∀ id sc, s.schedules.get? id = some sc → sc.id = id
  markers : ∀ id sc, s.schedules.get? id = some sc → sc.lastRun = none
  runs : s.runs = .empty
  occurrences : s.occurrences = .empty
  workers : s.workers = .empty

theorem Fresh.sound (fresh : Fresh s) : Sound h s where
  ledger := {
    keyed := fresh.keyed _ _
    claimed := fun found => by
      rw [fresh.runs] at found
      cases found
    backed := fun claim => by
      rw [fresh.occurrences] at claim
      cases claim }
  workers found := by
    rw [fresh.workers] at found
    cases found

theorem Fresh.accounted (fresh : Fresh s) : Accounted h s where
  once := (fresh.sound (h := h)).ledger.once
  kept row _ _ _ marker _ := by
    rw [fresh.markers _ _ row] at marker
    cases marker

/-- For every history of ticks, manual triggers and failures, of any number of workers that
interleave: a nominal minute never has two runs, and nothing at or before a marker is owed,
in every state the history passes through, if and only if no event of it overtakes an
occurrence that is still owed. -/
theorem occurrences_accounted_iff (h : Host) {s : State} (fresh : Fresh s) (events : List Event) :
    (∀ first rest, events = first ++ rest →
      Accounted h (run (fun e s => s.step h e) first s)) ↔
      Guarded (fun e s => s.step h e) (InOrder h) events s :=
  Guarded.iff_run (I := Sound h) (fun e _ sound accounted => (step_moves sound accounted e).1)
    (fun e _ sound accounted => step_accounted_iff sound accounted e) fresh.sound fresh.accounted

/-- A server with a database whose schedules fire every minute. -/
def everyMinute : Host where
  mode := .database
  trigger := fun _ => some { cron := "* * * * *" }
  identity := fun sc => some (sc.repoID, sc.repoURL, sc.forge)
  cronShape := fun _ => true
  forgeKind := fun _ => true

/-- One schedule, created at the epoch. -/
def oneSchedule : State where
  schedules := Table.empty.put "nightly" { id := "nightly" }

theorem oneSchedule_fresh : Fresh oneSchedule where
  keyed id sc row := by
    rw [oneSchedule, Table.get?_put] at row
    split at row
    case isTrue same =>
      cases row
      exact same.symm
    case isFalse => cases row
  markers id sc row := by
    rw [oneSchedule, Table.get?_put] at row
    split at row
    · cases row
      rfl
    · cases row
  runs := rfl
  occurrences := rfl
  workers := rfl

/-- A tick that finds one occurrence due, fires it and moves the marker. -/
def fireInOrder : List Event :=
  [.tick 0 60 60 true fun _ => true, .work 0 { runID := some "first" }, .work 0 { runID := none }]

theorem fireInOrder_accounted :
    Fresh oneSchedule ∧ ∀ first rest, fireInOrder = first ++ rest →
      Accounted everyMinute (run (fun e s => s.step everyMinute e) first oneSchedule) := by
  refine ⟨oneSchedule_fresh,
    (occurrences_accounted_iff everyMinute oneSchedule_fresh fireInOrder).mpr ?_⟩
  have collected : ((oneSchedule.step everyMinute (.tick 0 60 60 true fun _ => true)).workers.get?
      0).map (·.work) = some [.fire { id := "nightly" } 60] := by decide +kernel
  have fired : (run (fun e s => s.step everyMinute e) (fireInOrder.take 2)
      oneSchedule).workers.get? 0 = some ⟨false, [("nightly", 60)], [.advance "nightly" 60]⟩ := by
    decide +kernel
  refine ⟨?_, ?_, ?_, trivial⟩
  · rintro w id n sc ⟨k, reply, rest, same, -⟩
    cases same
  · rintro w id n sc ⟨k, reply, rest, same, busy, next, -⟩
    cases same
    rw [busy, map_some, next] at collected
    cases collected
  · rintro w id n sc ⟨k, reply, rest, same, busy, next, -⟩ - m ⟨earlier, -, ahead, -⟩
    cases same
    obtain rfl := some.inj (fired.symm.trans busy)
    cases next
    obtain ⟨-, rfl⟩ := Prod.mk.inj (mem_singleton.mp ahead)
    exact Nat.lt_irrefl _ earlier

/-- The tick of the second minute collects two occurrences; the forge refuses the revision
of the first and answers for the second. -/
def failThenFire : List Event :=
  [.tick 0 120 120 true fun _ => true,
    .work 0 { runID := some "first", revision := false },
    .work 0 { runID := some "second" },
    .work 0 { runID := none }]

/-- The first occurrence is never run: the marker stands at the second, the first has no
claim and was not skipped. -/
theorem failed_occurrence_overtaken :
    ¬ ∀ first rest, failThenFire = first ++ rest →
      Accounted everyMinute (run (fun e s => s.step everyMinute e) first oneSchedule) := by
  intro throughout
  have accounted := throughout failThenFire [] (append_nil _).symm
  have row : (run (fun e s => s.step everyMinute e) failThenFire oneSchedule).schedules.get?
      "nightly" = some { id := "nightly", lastRun := some 120 } := by decide +kernel
  have unclaimed : (run (fun e s => s.step everyMinute e) failThenFire oneSchedule).occurrences.get?
      ("nightly", 60) = none := by decide +kernel
  have noSkip : (run (fun e s => s.step everyMinute e) failThenFire oneSchedule).skipped = [] := by
    decide +kernel
  obtain ⟨cron, parsed, occurs⟩ : ∃ cron, everyMinute.cron "" = some cron ∧ cron.Occurs 60 := by
    have fires : (everyMinute.cron "").any (fun cron => cron.Occurs 60) = true := by decide +kernel
    obtain ⟨cron, parsed, occurs⟩ := (any_eq_true _ _).mp fires
    exact ⟨cron, parsed, of_decide_eq_true occurs⟩
  rcases accounted.kept row parsed occurs (by decide) rfl (by decide) with ⟨run, claim, -⟩ | skipped
  · rw [unclaimed] at claim
    cases claim
  · rw [noSkip] at skipped
    cases skipped

end State

end KiwiCI.Server
