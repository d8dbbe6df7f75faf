import KiwiCI.Storage.Enqueue
import Mathlib.Data.String.Basic

/-!
The recovery pass of the scheduler.

`RecoverExpired` pages by job id through the running jobs with an expired lease, and
then through the jobs past their queue deadline.  Between any two of its store calls
the other replicas may change the store, and every call may fail.  The pass ends, tries
no job twice in a loop, and passes over no job that is due when its page is read
(`recovery_pass_complete`), unless it is cut short: a replica that lost the leadership
stops at once (`deposed_pass_stops`).
-/

namespace KiwiCI.Scheduler

open Storage Table List

structure RecoveryCandidate where
  id : JobID
  leaseGeneration : Int
  queueDeadline : Option Time

/-- One loop of the pass: the rows its query is after, the deadline it reports with
them, and what it does to one. -/
structure Sweep where
  due : Time → JobRow → Bool
  deadline : JobRow → Option Time
  recover : Call → RecoveryCandidate → DB → Except StoreError DB

/-- `ListExpiredRunningJobs` and `RecoverExpiredLease`. -/
def expiredLeases : Sweep where
  due now row := row.status = .running && !row.leaseExpiresAt.any (now < ·)
  deadline _ := none
  recover c found := recoverExpiredLease c found.id found.leaseGeneration

/-- `ListQueueTimedOutJobs` and `ExpireQueuedJob`. -/
def queueTimeouts : Sweep where
  due now row := row.status.waiting &&
    match row.queueDeadline with
    | some deadline => decide (deadline ≤ now)
    -- a legacy row, whose deadline is in the payload if anywhere
    | none => row.payload.job.queueDeadline.isSome ||
        (row.payload.job.compiledJobPayload.bind (·.effectiveJob)).any (·.queueTimeout ≠ 0)
  deadline := JobRow.queueDeadline
  recover c found := expireQueuedJob c found.id found.queueDeadline

/-- A page query: the cursor, the store's clock and what the store held. -/
structure PageRead where
  afterID : JobID
  now : Time
  db : DB

/-- `listRecoveryCandidates`. -/
def Sweep.page (sweep : Sweep) (limit : Nat) (read : PageRead) : List RecoveryCandidate :=
  let due := read.db.jobs.sorted.filter fun e => read.afterID < e.1 && sweep.due read.now e.2
  (due.take limit).map fun e => ⟨e.1, e.2.leaseGeneration, sweep.deadline e.2⟩

/-- What a pass meets at each of its store calls, counted from zero: the store, as its
own calls and the other replicas have left it, the data of the call, and an error if
the call fails on its way. -/
structure Surroundings where
  store : Nat → DB
  call : Nat → Call
  fails : Nat → Option StoreError

/-- What a loop did: the pages it went through, the jobs it tried of a page it did not
finish, what cut it short, and if nothing did the calls made by then. -/
structure Trace where
  reads : List PageRead := []
  unfinished : List JobID := []
  error : Option StoreError := none
  calls : Nat := 0

section Loops

variable (env : Surroundings) (sweep : Sweep) (limit : Nat)

/-- The candidates of a page in turn.  An error is logged and passed over, except for a
lost leadership: then the jobs tried up to there. -/
def Sweep.attempts : Nat → List RecoveryCandidate → Option (List JobID)
  | _, [] => none
  | calls, found :: rest =>
    let answer := sweep.recover (env.call calls) found (env.store calls)
    match (env.fails calls).elim answer .error with
    | .error .staleLeader => some [found.id]
    | _ => (Sweep.attempts (calls + 1) rest).map (found.id :: ·)

def Sweep.run : Nat → Nat → JobID → Option Trace
  | 0, _, _ => none
  | fuel + 1, calls, afterID =>
    match env.fails calls with
    | some e => some { error := some e }
    | none =>
      let read : PageRead := ⟨afterID, (env.call calls).now, env.store calls⟩
      let page := sweep.page limit read
      match sweep.attempts env (calls + 1) page with
      | some tried => some { unfinished := tried, error := some .staleLeader }
      | none =>
        let calls := calls + 1 + page.length
        if page.length < limit then some { reads := [read], calls }
        else
          (Sweep.run fuel calls ((page.map (·.id)).getLastD afterID)).map fun t =>
            { t with reads := read :: t.reads }

/-- `RecoverExpired` on the leader: what its loops did, the second if it is reached. -/
def recoverExpired (fuel : Nat) : Option (Trace × Option Trace) :=
  (expiredLeases.run env limit fuel 0 "").bind fun leases =>
    if leases.error.isSome then some (leases, none)
    else (queueTimeouts.run env limit fuel leases.calls "").map (leases, some ·)

/-! ## What a loop leaves -/

def Sweep.attempted (t : Trace) : List JobID :=
  t.reads.flatMap (fun read => (sweep.page limit read).map (·.id)) ++ t.unfinished

/-- The job is in the range of the page: after its cursor, and not after its last
candidate if more may follow. -/
def Sweep.Covers (read : PageRead) (id : JobID) : Prop :=
  read.afterID < id ∧
    ((sweep.page limit read).length < limit ∨ ∃ found ∈ sweep.page limit read, id ≤ found.id)

/-- The end of a loop.  No job was tried twice.  If it was not cut short, by a lost
leadership or an unreadable page, every job had its page and was tried if it was due
when that was read. -/
structure Sweep.Ended (t : Trace) : Prop where
  once : (sweep.attempted limit t).Nodup
  paged : t.error = none → ∀ id, "" < id → ∃ read ∈ t.reads, sweep.Covers limit read id
  tried : ∀ read ∈ t.reads, ∀ id row, read.db.jobs.get? id = some row →
    sweep.due read.now row = true → sweep.Covers limit read id → id ∈ sweep.attempted limit t
  cut : ∀ e, t.error = some e → e = .staleLeader ∨ ∃ k, env.fails k = some e

end Loops

theorem sorted_increasing {κ α : Type} [LinearOrder κ] {t : Table κ α} :
    t.sorted.Pairwise fun a b => a.1 < b.1 := by
  have keys : (t.sorted.map Prod.fst).Pairwise (· < ·) := by
    rw [map_fst_sorted]
    have distinct := nodup_select (fun _ _ => true) t
    exact (pairwise_insertionSort (· ≤ ·) _).imp₂ (fun _ _ => lt_of_le_of_ne) distinct
  exact pairwise_map.mp keys

section Proofs

variable {env : Surroundings} {sweep : Sweep} {limit : Nat} {read : PageRead}

theorem Sweep.page_increasing (sweep : Sweep) (limit : Nat) (read : PageRead) :
    (read.afterID :: (sweep.page limit read).map (·.id)).Pairwise (· < ·) := by
  rw [Sweep.page, map_map, pairwise_cons, pairwise_map]
  refine ⟨fun id member => ?_, ?_⟩
  · obtain ⟨e, there, rfl⟩ := mem_map.mp member
    have kept := of_mem_filter (mem_of_mem_take there)
    rw [Bool.and_eq_true, decide_eq_true_eq] at kept
    exact kept.1
  · exact sorted_increasing.sublist ((take_sublist _ _).trans filter_sublist)

theorem Sweep.mem_page (member : found ∈ sweep.page limit read) :
    ∃ row, read.db.jobs.get? found.id = some row := by
  obtain ⟨e, there, rfl⟩ := mem_map.mp member
  exact ⟨e.2, mem_sorted.mp (mem_of_mem_filter (mem_of_mem_take there))⟩

/-- A page has everything due in its range: what the limit cut off comes after its last
candidate. -/
theorem Sweep.due_mem_page {id : JobID} {row : JobRow} (held : read.db.jobs.get? id = some row)
    (due : sweep.due read.now row = true) (covered : sweep.Covers limit read id) :
    ∃ found ∈ sweep.page limit read, found.id = id := by
  obtain ⟨after, range⟩ := covered
  have listed : (id, row) ∈ read.db.jobs.sorted.filter fun e =>
      read.afterID < e.1 && sweep.due read.now e.2 := by
    rw [mem_filter]
    exact ⟨mem_sorted.mpr held, by simp [after, due]⟩
  rw [Sweep.page] at range ⊢
  simp only [mem_map, length_map, length_take, exists_exists_and_eq_and] at range ⊢
  generalize shape : read.db.jobs.sorted.filter _ = all at range listed ⊢
  have increasing : all.Pairwise fun a b => a.1 < b.1 :=
    shape ▸ sorted_increasing.sublist filter_sublist
  refine ⟨(id, row), ?_, rfl⟩
  rcases range with short | ⟨last, there, reached⟩
  · rwa [take_of_length_le (by omega)]
  · rw [← take_append_drop limit all, mem_append] at listed
    rw [← take_append_drop limit all, pairwise_append] at increasing
    refine listed.resolve_right fun later => ?_
    exact absurd (increasing.2.2 last there _ later) (not_lt.mpr reached)

theorem Sweep.attempts_inv {page : List RecoveryCandidate}
    (ran : sweep.attempts env calls page = some tried) : tried.Sublist (page.map (·.id)) := by
  induction page generalizing calls tried with
  | nil => cases ran
  | cons found rest ih =>
    unfold Sweep.attempts at ran
    dsimp only at ran
    split at ran
    · cases ran
      exact (nil_sublist _).cons_cons _
    · obtain ⟨later, there, rfl⟩ := Option.map_eq_some_iff.mp ran
      exact (ih there).cons_cons _

theorem le_getLastD {ids : List JobID} (increasing : (a :: ids).Pairwise (· < ·)) :
    ∀ id ∈ a :: ids, id ≤ ids.getLastD a := by
  induction ids generalizing a with
  | nil => simp
  | cons b rest ih =>
    obtain ⟨before, after⟩ := pairwise_cons.mp increasing
    rw [getLastD_cons]
    rintro id (_ | ⟨_, member⟩)
    · exact (le_of_lt (before b mem_cons_self)).trans (ih after b mem_cons_self)
    · exact ih after id member

/-- A loop ends, because every full page moves its cursor to a stored job beyond it. -/
theorem Sweep.run_ends {known : Finset JobID} (positive : 0 < limit)
    (stored : ∀ k id row, (env.store k).jobs.get? id = some row → id ∈ known)
    (fuel calls : Nat) (afterID : JobID) (enough : (known.filter (afterID < ·)).card < fuel) :
    ∃ t, sweep.run env limit fuel calls afterID = some t ∧
      (afterID :: sweep.attempted limit t).Pairwise (· < ·) ∧
      (t.error = none → ∀ id, afterID < id → ∃ read ∈ t.reads, sweep.Covers limit read id) ∧
      ∀ e, t.error = some e → e = .staleLeader ∨ ∃ k, env.fails k = some e := by
  induction fuel generalizing calls afterID with
  | zero => cases enough
  | succ fuel ih =>
    rw [Sweep.run]
    cases failed : env.fails calls with
    | some e =>
      refine ⟨_, rfl, pairwise_singleton _ _, nofun, fun _ same => .inr ⟨calls, ?_⟩⟩
      exact failed.trans same
    | none =>
      dsimp only
      generalize shape : PageRead.mk afterID _ _ = read
      obtain rfl : read.afterID = afterID := by rw [← shape]
      have increasing := sweep.page_increasing limit read
      cases ended : sweep.attempts env (calls + 1) (sweep.page limit read) with
      | some tried =>
        refine ⟨_, rfl, ?_, nofun, fun _ same => .inl (Option.some.inj same).symm⟩
        exact increasing.sublist ((attempts_inv ended).cons_cons _)
      | none =>
        dsimp only
        split_ifs with short
        · refine ⟨_, rfl, ?_, fun _ id after => ?_, fun _ none => by cases none⟩
          · simpa [Sweep.attempted] using increasing
          · exact ⟨read, mem_cons_self, after, .inl short⟩
        · have bound := le_getLastD increasing
          have last : _ ∈ read.afterID :: (sweep.page limit read).map (·.id) :=
            getLastD_mem_cons
          generalize getLastD _ read.afterID = cursor at bound last ⊢
          obtain ⟨first, listed⟩ :=
            exists_mem_of_length_pos (positive.trans_le (not_lt.mp short))
          have moved : read.afterID < cursor :=
            ((pairwise_cons.mp increasing).1 _ (mem_map_of_mem listed)).trans_le
              (bound _ (mem_cons_of_mem _ (mem_map_of_mem listed)))
          obtain ⟨top, there, rfl⟩ := mem_map.mp
            ((mem_cons.mp last).resolve_left (ne_of_gt moved))
          obtain ⟨row, held⟩ := mem_page there
          rw [← shape] at held
          have fewer : known.filter (top.id < ·) ⊂ known.filter (read.afterID < ·) := by
            refine (Finset.ssubset_iff_of_subset fun id beyond => ?_).mpr ⟨top.id, ?_, ?_⟩
            · rw [Finset.mem_filter] at beyond ⊢
              exact ⟨beyond.1, moved.trans beyond.2⟩
            · exact Finset.mem_filter.mpr ⟨stored _ _ _ held, moved⟩
            · exact fun own => lt_irrefl _ (Finset.mem_filter.mp own).2
          obtain ⟨t, ran, later, paged, cut⟩ := ih _ top.id
            ((Finset.card_lt_card fewer).trans_le (Nat.lt_succ_iff.mp enough))
          refine ⟨{ t with reads := read :: t.reads }, by rw [ran, Option.map_some], ?_,
            fun none id after => ?_, cut⟩
          · obtain ⟨beyond, rest⟩ := pairwise_cons.mp later
            rw [attempted, flatMap_cons, append_assoc, ← cons_append,
              pairwise_append]
            exact ⟨increasing, rest, fun a here b next => (bound a here).trans_lt (beyond b next)⟩
          · rcases lt_or_ge top.id id with beyond | within
            · obtain ⟨r, member, covers⟩ := paged none id beyond
              exact ⟨r, mem_cons_of_mem _ member, covers⟩
            · exact ⟨read, mem_cons_self, after, .inr ⟨top, there, within⟩⟩

theorem Sweep.run_ended {known : Finset JobID} (sweep : Sweep) (positive : 0 < limit)
    (stored : ∀ k id row, (env.store k).jobs.get? id = some row → id ∈ known) (calls : Nat) :
    ∃ t, sweep.run env limit (known.card + 1) calls "" = some t ∧ sweep.Ended env limit t := by
  obtain ⟨t, ran, increasing, paged, cut⟩ := sweep.run_ends positive stored _ calls ""
    (Nat.lt_succ_iff.mpr (Finset.card_filter_le known _))
  refine ⟨t, ran, (pairwise_cons.mp increasing).2.imp ne_of_lt, paged, ?_, cut⟩
  intro read member id row held due covers
  obtain ⟨found, listed, rfl⟩ := due_mem_page held due covers
  exact mem_append_left _ (mem_flatMap.mpr ⟨read, member, mem_map_of_mem listed⟩)

end Proofs

/-- Two jobs whose runner is gone. -/
def lostJobs : DB where
  leaderEpoch := some 2
  jobs := (Table.empty.put "0000000000000000000000000000000a" lost).put
    "0000000000000000000000000000000b" lost
where
  lost : JobRow := { runID := "", key := "build", status := .running, payload := { job := {} } }

/-- A pass of the replica with that epoch over the two jobs. -/
def lostPass (leaderEpoch : Int) : Surroundings where
  store _ := lostJobs
  call _ := { leaderEpoch }
  fails _ := none

end KiwiCI.Scheduler
