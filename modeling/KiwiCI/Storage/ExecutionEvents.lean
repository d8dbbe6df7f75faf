import KiwiCI.Lib.Table
import KiwiCI.Lib.Transaction
import KiwiCI.Model

/-!
The execution event stream and its retention, in its three stores: `execution_events.go`
(PostgreSQL), `fs.go` (the journal of a data directory) and `faultstore.go` (memory).

A prune deletes a batch of the oldest events and leaves three traces: the survivors, the
global watermark and a deletion frontier for every run.  SQL writes them in one transaction
and memory under one lock; the data directory has a file for each, written in the order
frontier, journal, watermark.  `resume_truthful` is what a consumer relies on: as long as its
cursor is not reported as expired, nothing behind the cursor has been deleted.  It holds in
every history whose batches are written to the end and keep every run in one repository.
-/

namespace KiwiCI.Storage.Events

open Table List

variable {e : ExecutionEvent} {victims : List ExecutionEvent}

/-- The three implementations. -/
inductive Store where
  | postgres
  | files
  | memory
  deriving DecidableEq, Repr

/-- `model.ExecutionEvent`, with what appending, reading and pruning look at. -/
structure ExecutionEvent where
  seq : Nat := 0
  runID : RunID := ""
  repoID : String := ""
  createdAt : Time := 0
  deriving DecidableEq, Repr

/-- `ExecutionEventScope`. -/
inductive Scope where
  | global
  | repo (id : String)
  | run (id : RunID)
  deriving DecidableEq, Repr

/-- `executionEventMatchesScope`. -/
def Scope.matches : Scope → ExecutionEvent → Bool
  | .global, _ => true
  | .repo id, e => e.repoID = id
  | .run id, e => e.runID = id

/-- A repository read needs a repository and a run read a run. -/
def Scope.Named : Scope → Prop
  | .global => True
  | .repo id => id ≠ ""
  | .run id => id ≠ ""

/-- `executionEventPrunedRecord`: the highest deleted seq of a run, and its repository. -/
structure PrunedRecord where
  repoID : String := ""
  maxSeq : Nat := 0
  deriving DecidableEq, Repr

/-- A store's stream.  `seq` is the allocation cursor: a row in SQL, a variable of the
process otherwise.  `appended` is no field of a store: it keeps every event the store has
ever accepted. -/
structure Stream where
  events : List ExecutionEvent := []
  seq : Nat := 0
  retained : Nat := 0
  pruned : Table RunID PrunedRecord := .empty
  appended : List ExecutionEvent := []

/-! ## Reading -/

/-- `scopedRetainedLocked`, and the frontier column of the SQL read. -/
def Stream.scopedRetained (s : Stream) : Scope → Nat
  | .global => s.retained
  | .repo id =>
    ((s.pruned.rows.filter fun row => row.2.repoID = id).map fun row => row.2.maxSeq).foldl max 0
  | .run id => ((s.pruned.get? id).getD {}).maxSeq

/-- `ExecutionEventCursorExpired`. -/
def cursorExpired (after : Int) (retained : Nat) : Bool := 0 < retained && after < retained

/-- `ClampExecutionEventLimit`. -/
def clampLimit (limit : Int) : Nat :=
  if limit ≤ 0 ∨ limit > 10000 then 1000 else limit.toNat

/-- What `ReadExecutionEventsRetention` returns. -/
structure Page where
  events : List ExecutionEvent
  nextCursor : Int
  retainedFrom : Nat
  latestCursor : Nat

/-- `ReadExecutionEventsRetention`. -/
def Stream.read (s : Stream) (after limit : Int) (scope : Scope) : Page :=
  let page := (s.events.filter fun e => after < e.seq && scope.matches e).take (clampLimit limit)
  { events := page
    nextCursor := (page.getLast?.map fun e => (e.seq : Int)).getD after
    retainedFrom := s.scopedRetained scope
    latestCursor := s.seq }

/-! ## Appending -/

/-- `AppendExecutionEvent`.  An event without a repository takes that of the run it belongs
to, except in the data directory, which keeps what it is given.  A write that fails is
rolled back by SQL; the directory's process has consumed the number all the same. -/
def Stream.append (k : Store) (owner : String) (written : Bool) (e : ExecutionEvent)
    (s : Stream) : Stream :=
  let repo := if e.repoID = "" ∧ k ≠ .files then owner else e.repoID
  let e := { e with seq := s.seq + 1, repoID := repo }
  if written || k = .memory then
    { s with seq := s.seq + 1, events := s.events ++ [e], appended := s.appended ++ [e] }
  else match k with
    | .files => { s with seq := s.seq + 1 }
    | .postgres | .memory => s

/-! ## Pruning -/

/-- The first event that has to stay: the lowest one at or after the cutoff in SQL, the
first one in the journal or the slice otherwise. -/
def Stream.keepFrom (k : Store) (olderThan : Time) (s : Stream) : Option Nat :=
  match k with
  | .postgres => ((s.events.filter fun e => olderThan ≤ e.createdAt).map (·.seq)).min?
  | .files | .memory => (s.events.find? fun e => olderThan ≤ e.createdAt).map (·.seq)

/-- An event may go: it lies behind the watermark and before the first that stays. -/
def Stream.prunable (k : Store) (olderThan : Time) (s : Stream) (e : ExecutionEvent) : Bool :=
  (s.keepFrom k olderThan).all (e.seq < ·) && s.retained < e.seq

/-- The first `limit` events that may go, and the others. -/
def splitVictims (p : ExecutionEvent → Bool) :
    Nat → List ExecutionEvent → List ExecutionEvent × List ExecutionEvent
  | _, [] => ([], [])
  | 0, events => ([], events)
  | limit + 1, e :: events =>
    if p e then
      let (victims, kept) := splitVictims p limit events
      (e :: victims, kept)
    else
      let (victims, kept) := splitVictims p (limit + 1) events
      (victims, e :: kept)

/-- The default of `DefaultExecutionEventPruneLimit` for a limit that is not positive. -/
def pruneLimit (limit : Int) : Nat := if limit ≤ 0 then 1000 else limit.toNat

/-- The events a batch deletes, and the survivors.  Memory stops at the first event that has
to stay. -/
def Stream.batch (k : Store) (olderThan : Time) (limit : Int) (s : Stream) :
    List ExecutionEvent × List ExecutionEvent :=
  match k with
  | .postgres | .files => splitVictims (s.prunable k olderThan) (pruneLimit limit) s.events
  | .memory =>
    let victims := (s.events.takeWhile (s.prunable k olderThan)).take (pruneLimit limit)
    (victims, s.events.drop victims.length)

/-- The highest seq a batch deletes, or the watermark. -/
def Stream.highest (s : Stream) (victims : List ExecutionEvent) : Nat :=
  (victims.map (·.seq)).foldl max s.retained

/-- `recordExecutionEventPrunedLocked`, for one victim: an event without a run leaves no
trace, and one without a repository keeps the one on record. -/
def recordPruned (pruned : Table RunID PrunedRecord) (e : ExecutionEvent) :
    Table RunID PrunedRecord :=
  if e.runID = "" then pruned
  else
    let record := (pruned.get? e.runID).getD {}
    pruned.put e.runID
      { maxSeq := max record.maxSeq e.seq
        repoID := if e.repoID = "" then record.repoID else e.repoID }

/-- The groups of the SQL statement: the runs and repositories among the victims. -/
def groups (victims : List ExecutionEvent) : List (RunID × String) :=
  ((victims.filter fun e => e.runID ≠ "").map fun e => (e.runID, e.repoID)).dedup

/-- `MAX(e.seq)` of a group. -/
def groupMax (victims : List ExecutionEvent) (group : RunID × String) : Nat :=
  ((victims.filter fun e => (e.runID, e.repoID) = group).map (·.seq)).foldl max 0

/-- `ON CONFLICT (run_id) DO UPDATE` with the row of one group. -/
def upsertPruned (victims : List ExecutionEvent) (pruned : Table RunID PrunedRecord)
    (group : RunID × String) : Table RunID PrunedRecord :=
  pruned.put group.1
    { repoID := group.2
      maxSeq := max ((pruned.get? group.1).getD {}).maxSeq (groupMax victims group) }

/-- `PruneExecutionEvents`.  SQL refuses a statement that would update one row twice.  In the
data directory `writes` of the three files were written before the process stopped or the
call failed. -/
def Stream.prune (k : Store) (olderThan : Time) (limit : Int) (writes : Nat) (s : Stream) :
    Stream :=
  let (victims, kept) := s.batch k olderThan limit
  if victims = [] then s
  else match k with
    | .postgres =>
      if ((groups victims).map (·.1)).Nodup then
        { s with
          events := kept
          retained := s.highest victims
          pruned := (groups victims).foldl (upsertPruned victims) s.pruned }
      else s
    | .memory =>
      { s with
        events := kept
        retained := s.highest victims
        pruned := victims.foldl recordPruned s.pruned }
    | .files =>
      { s with
        pruned := if 1 ≤ writes then victims.foldl recordPruned s.pruned else s.pruned
        events := if 2 ≤ writes then kept else s.events
        retained := if 3 ≤ writes then s.highest victims else s.retained }

/-- A new process.  SQL has lost nothing; the data directory allocates on from the highest
seq of the journal and the watermark (`initExecutionEventSeqLocked`); a memory store is a
new one, with a history of its own. -/
def Stream.restart (k : Store) (s : Stream) : Stream :=
  match k with
  | .postgres => s
  | .files => { s with seq := max ((s.events.map (·.seq)).foldl max 0) s.retained }
  | .memory => {}

inductive Op where
  | append (owner : String) (written : Bool) (e : ExecutionEvent)
  | prune (olderThan : Time) (limit : Int) (writes : Nat)
  | restart

def step (k : Store) (op : Op) (s : Stream) : Stream :=
  match op with
  | .append owner written e => s.append k owner written e
  | .prune olderThan limit writes => s.prune k olderThan limit writes
  | .restart => s.restart k

/-! ## What a batch is -/

/-- Every event is deleted or kept, and what is kept stays in order. -/
structure Splits (events victims kept : List ExecutionEvent) : Prop where
  parts : ∀ e ∈ events, e ∈ victims ∨ e ∈ kept
  victims : ∀ e ∈ victims, e ∈ events
  kept : kept.Sublist events

theorem splitVictims_splits (p : ExecutionEvent → Bool) (limit : Nat)
    (events : List ExecutionEvent) :
    Splits events (splitVictims p limit events).1 (splitVictims p limit events).2 := by
  induction events generalizing limit with
  | nil => cases limit <;> exact ⟨nofun, nofun, .slnil⟩
  | cons e events ih =>
    cases limit with
    | zero => exact ⟨fun _ member => .inr member, nofun, .refl _⟩
    | succ limit =>
      unfold splitVictims
      split
      · obtain ⟨parts, victims, kept⟩ := ih limit
        refine ⟨fun other member => ?_, fun other member => ?_, kept.cons e⟩
        · rcases mem_cons.mp member with rfl | later
          · exact .inl mem_cons_self
          · exact (parts other later).imp_left (mem_cons_of_mem e)
        · rcases mem_cons.mp member with rfl | later
          · exact mem_cons_self
          · exact mem_cons_of_mem e (victims other later)
      · obtain ⟨parts, victims, kept⟩ := ih (limit + 1)
        refine ⟨fun other member => ?_, fun other member => ?_, kept.cons_cons e⟩
        · rcases mem_cons.mp member with rfl | later
          · exact .inr mem_cons_self
          · exact (parts other later).imp_right (mem_cons_of_mem e)
        · exact mem_cons_of_mem e (victims other member)

theorem batch_splits (k : Store) (olderThan : Time) (limit : Int) (s : Stream) :
    Splits s.events (s.batch k olderThan limit).1 (s.batch k olderThan limit).2 := by
  cases k with
  | postgres | files => exact splitVictims_splits _ _ _
  | memory =>
    have opens : ((s.events.takeWhile (s.prunable .memory olderThan)).take (pruneLimit limit)) <+:
        s.events := (List.take_prefix _ _).trans (List.takeWhile_prefix _)
    obtain ⟨rest, whole⟩ := opens
    unfold Stream.batch
    simp only
    generalize (s.events.takeWhile _).take _ = victims at whole
    rw [← whole, drop_left]
    exact ⟨fun _ member => mem_append.mp member, fun _ => mem_append_left _,
      sublist_append_right _ _⟩

theorem foldl_max_le {seqs : List Nat} :
    seqs.foldl max start ≤ n ↔ start ≤ n ∧ ∀ seq ∈ seqs, seq ≤ n := by
  induction seqs generalizing start with
  | nil => simp
  | cons seq seqs ih => rw [foldl_cons, ih, max_le_iff, forall_mem_cons, and_assoc]

theorem le_foldl_max {seqs : List Nat} (held : n ≤ start ∨ n ∈ seqs) :
    n ≤ seqs.foldl max start := by
  obtain ⟨low, each⟩ := foldl_max_le.mp (le_refl (seqs.foldl max start))
  rcases held with below | member
  · exact below.trans low
  · exact each n member

/-! ## What a batch leaves on record -/

/-- The record of the event's run covers the event: it is at least as high, and names the
event's repository. -/
def Covers (pruned : Table RunID PrunedRecord) (e : ExecutionEvent) : Prop :=
  ∃ record, pruned.get? e.runID = some record ∧ e.seq ≤ record.maxSeq ∧
    (e.repoID ≠ "" → record.repoID = e.repoID)

/-- Later records cover what earlier ones did. -/
def Grows (pruned pruned' : Table RunID PrunedRecord) : Prop :=
  ∀ run record, pruned.get? run = some record → ∃ record', pruned'.get? run = some record' ∧
    record.maxSeq ≤ record'.maxSeq ∧ (record.repoID ≠ "" → record'.repoID = record.repoID)

theorem Grows.refl (pruned : Table RunID PrunedRecord) : Grows pruned pruned :=
  fun _ record found => ⟨record, found, le_rfl, fun _ => rfl⟩

theorem Grows.trans (first : Grows a b) (second : Grows b c) :
    Grows a c := by
  intro run record found
  obtain ⟨mid, found, higher, same⟩ := first run record found
  obtain ⟨last, found, higher', same'⟩ := second run mid found
  refine ⟨last, found, higher.trans higher', fun named => ?_⟩
  rw [same' (same named ▸ named), same named]

theorem Covers.grows
    (covers : Covers pruned e) (grows : Grows pruned pruned') : Covers pruned' e := by
  obtain ⟨record, found, high, same⟩ := covers
  obtain ⟨record', found', higher, same'⟩ := grows _ record found
  refine ⟨record', found', high.trans higher, fun named => ?_⟩
  rw [same' (same named ▸ named), same named]

/-- Two repositories of which one is missing or that are the same. -/
def Agree (a b : String) : Prop := a = "" ∨ a = b

/-- The repositories of a batch agree with each other and with the record. -/
def OneRepository (pruned : Table RunID PrunedRecord) (victims : List ExecutionEvent) : Prop :=
  ∀ v ∈ victims, v.repoID ≠ "" → v.runID ≠ "" ∧
    (∀ record, pruned.get? v.runID = some record → Agree record.repoID v.repoID) ∧
    ∀ u ∈ victims, u.runID = v.runID → Agree u.repoID v.repoID

theorem recordPruned_grows (agrees : e.repoID ≠ "" →
      ∀ record, pruned.get? e.runID = some record → Agree record.repoID e.repoID) :
    Grows pruned (recordPruned pruned e) := by
  intro run record found
  unfold recordPruned
  split
  · exact ⟨record, found, le_rfl, fun _ => rfl⟩
  · simp only [get?_put]
    split
    case isTrue same =>
      subst same
      rw [found]
      refine ⟨_, rfl, le_max_left _ _, fun named => ?_⟩
      simp only [Option.getD_some]
      split
      · rfl
      · rename_i speaks
        exact ((agrees speaks record found).resolve_left named).symm
    case isFalse => exact ⟨record, found, le_rfl, fun _ => rfl⟩

theorem recordPruned_covers (pruned : Table RunID PrunedRecord)
    (run : e.runID ≠ "") : Covers (recordPruned pruned e) e := by
  unfold recordPruned
  rw [if_neg run]
  refine ⟨_, get?_put_self _ _ _, le_max_right _ _, fun named => ?_⟩
  simp only [if_neg named]

/-- Recording one victim leaves the rest of the batch in agreement with the record. -/
theorem OneRepository.tail (one : OneRepository pruned (e :: victims)) :
    OneRepository (recordPruned pruned e) victims := by
  intro v member named
  obtain ⟨run, recorded, batch⟩ := one v (mem_cons_of_mem _ member) named
  refine ⟨run, fun record found => ?_, fun u other => batch u (mem_cons_of_mem _ other)⟩
  unfold recordPruned at found
  split at found
  · exact recorded record found
  · rw [get?_put] at found
    split at found
    case isTrue same =>
      cases found
      change Agree (if e.repoID = "" then _ else e.repoID) v.repoID
      split
      · cases old : pruned.get? e.runID with
        | none => exact .inl rfl
        | some record => exact recorded record (same ▸ old)
      · exact batch e mem_cons_self same.symm
    case isFalse => exact recorded record found

theorem record_spec (one : OneRepository pruned victims) :
    Grows pruned (victims.foldl recordPruned pruned) ∧
      ∀ v ∈ victims, v.runID ≠ "" → Covers (victims.foldl recordPruned pruned) v := by
  induction victims generalizing pruned with
  | nil => exact ⟨.refl _, nofun⟩
  | cons e victims ih =>
    obtain ⟨grows, covers⟩ := ih one.tail
    have first : Grows pruned (recordPruned pruned e) :=
      recordPruned_grows fun named => (one e mem_cons_self named).2.1
    refine ⟨first.trans grows, fun v member run => ?_⟩
    rcases mem_cons.mp member with rfl | later
    · exact (recordPruned_covers pruned run).grows grows
    · exact covers v later run

/-- The same for SQL, whose row takes the repository of the batch whatever it is. -/
def OneRepositoryRow (pruned : Table RunID PrunedRecord) (victims : List ExecutionEvent) : Prop :=
  ∀ v ∈ victims, (v.repoID ≠ "" → v.runID ≠ "") ∧ (v.runID ≠ "" →
    ∀ record, pruned.get? v.runID = some record → Agree record.repoID v.repoID)

theorem mem_groups :
    group ∈ groups victims ↔ ∃ v ∈ victims, v.runID ≠ "" ∧ (v.runID, v.repoID) = group := by
  simp [groups, and_assoc]

theorem upsertPruned_foldl (victims : List ExecutionEvent) {gs : List (RunID × String)}
    (distinct : (gs.map (·.1)).Nodup) (pruned : Table RunID PrunedRecord) :
    (∀ g ∈ gs, (gs.foldl (upsertPruned victims) pruned).get? g.1 =
        some ⟨g.2, max ((pruned.get? g.1).getD {}).maxSeq (groupMax victims g)⟩) ∧
      ∀ run, run ∉ gs.map (·.1) →
        (gs.foldl (upsertPruned victims) pruned).get? run = pruned.get? run := by
  induction gs generalizing pruned with
  | nil => exact ⟨nofun, fun _ _ => rfl⟩
  | cons g gs ih =>
    obtain ⟨fresh, distinct⟩ := nodup_cons.mp distinct
    obtain ⟨inside, outside⟩ := ih distinct (upsertPruned victims pruned g)
    refine ⟨fun other member => ?_, fun run absent => ?_⟩
    · rcases mem_cons.mp member with rfl | later
      · rw [foldl_cons, outside _ fresh, upsertPruned, get?_put_self]
      · have differ : other.1 ≠ g.1 := by
          intro same
          exact fresh (mem_map.mpr ⟨other, later, same⟩)
        rw [foldl_cons, inside other later, upsertPruned, get?_put_ne _ _ differ]
    · rw [map_cons, mem_cons, not_or] at absent
      rw [foldl_cons, outside run absent.2, upsertPruned, get?_put_ne _ _ absent.1]

theorem upsert_spec {pruned : Table RunID PrunedRecord}
    (one : OneRepositoryRow pruned victims) (distinct : ((groups victims).map (·.1)).Nodup) :
    Grows pruned ((groups victims).foldl (upsertPruned victims) pruned) ∧
      ∀ v ∈ victims, v.runID ≠ "" →
        Covers ((groups victims).foldl (upsertPruned victims) pruned) v := by
  obtain ⟨inside, outside⟩ := upsertPruned_foldl victims distinct pruned
  constructor
  · intro run record found
    by_cases member : run ∈ (groups victims).map (·.1)
    · obtain ⟨g, inBatch, rfl⟩ := mem_map.mp member
      obtain ⟨v, victim, named, rfl⟩ := mem_groups.mp inBatch
      refine ⟨_, inside _ inBatch, ?_, fun known => ?_⟩
      · rw [found]
        exact le_max_left _ _
      · exact (((one v victim).2 named record found).resolve_left known).symm
    · exact ⟨record, by rw [outside run member, found], le_rfl, fun _ => rfl⟩
  · intro v victim named
    refine ⟨_, inside _ (mem_groups.mpr ⟨v, victim, named, rfl⟩), ?_, fun _ => rfl⟩
    refine le_trans (le_foldl_max (.inr ?_)) (le_max_right _ _)
    exact mem_map_of_mem (mem_filter.mpr ⟨victim, by simp⟩)

/-! ## Truthful resume -/

/-- What a consumer relies on, and the order of the stream. -/
structure Truthful (s : Stream) : Prop where
  resume : ∀ {after limit scope e}, scope.Named →
    cursorExpired after (s.read after limit scope).retainedFrom = false →
    e ∈ s.appended → scope.matches e = true → after < e.seq → e ∈ s.events
  increasing : s.appended.Pairwise fun e e' => e.seq < e'.seq

/-- The batch of a prune keeps every run in one repository, and in the data directory does
not end between the journal and the watermark. -/
def Orderly (k : Store) : Op → Stream → Prop
  | .prune olderThan limit writes, s =>
    match k with
    | .postgres => OneRepositoryRow s.pruned (s.batch k olderThan limit).1
    | .memory => OneRepository s.pruned (s.batch k olderThan limit).1
    | .files => OneRepository s.pruned (s.batch k olderThan limit).1 ∧ writes ≠ 2
  | .append .., _ => True
  | .restart, _ => True

/-- A deleted event has left its traces: the watermark, and the record of its run, without
which it has no repository. -/
structure Traced (s : Stream) (e : ExecutionEvent) : Prop where
  global : e.seq ≤ s.retained
  attributed : e.repoID ≠ "" → e.runID ≠ ""
  covered : e.runID ≠ "" → Covers s.pruned e

/-- What every orderly step keeps. -/
structure Kept (s : Stream) : Prop where
  increasing : s.appended.Pairwise fun e e' => e.seq < e'.seq
  held : ∀ e ∈ s.events, e ∈ s.appended
  numbered : ∀ e ∈ s.appended, 0 < e.seq ∧ e.seq ≤ s.seq
  traced : ∀ e ∈ s.appended, e ∉ s.events → Traced s e
  watermark : s.retained ≤ s.seq

theorem Traced.scopedRetained {s : Stream} (traced : Traced s e)
    (named : scope.Named) (matched : scope.matches e = true) :
    e.seq ≤ s.scopedRetained scope := by
  cases scope with
  | global => exact traced.global
  | run id =>
    obtain rfl : e.runID = id := by simpa [Scope.matches] using matched
    obtain ⟨record, found, high, -⟩ := traced.covered named
    simpa [Stream.scopedRetained, found] using high
  | repo id =>
    obtain rfl : e.repoID = id := by simpa [Scope.matches] using matched
    obtain ⟨record, found, high, same⟩ := traced.covered (traced.attributed named)
    refine high.trans (le_foldl_max (.inr (mem_map.mpr ⟨⟨e.runID, record⟩, ?_, rfl⟩)))
    exact mem_filter.mpr ⟨mem_rows_iff.mpr found, by simpa using same named⟩

theorem cursorExpired_false_iff {after : Int} :
    cursorExpired after retained = false ↔ retained = 0 ∨ (retained : Int) ≤ after := by
  rw [cursorExpired, Bool.and_eq_false_iff, decide_eq_false_iff_not, decide_eq_false_iff_not]
  omega

theorem Kept.truthful (kept : Kept s) : Truthful s where
  increasing := kept.increasing
  resume {after limit scope e} named valid appended matched beyond := by
    by_contra deleted
    have frontier := (kept.traced e appended deleted).scopedRetained named matched
    have positive := (kept.numbered e appended).1
    rcases cursorExpired_false_iff.mp valid with nothing | ahead
    · exact absurd (nothing ▸ frontier) (Nat.not_le_of_lt positive)
    · change (s.scopedRetained scope : Int) ≤ after at ahead
      omega

theorem Kept.append (kept : Kept s) (k : Store) (owner : String) (written : Bool)
    (e : ExecutionEvent) : Kept (s.append k owner written e) := by
  unfold Stream.append
  simp only
  generalize (if e.repoID = "" ∧ k ≠ .files then owner else e.repoID) = repo
  -- A consumed number moves the cursor on and nothing else.
  have consumed : Kept { s with seq := s.seq + 1 } :=
    { kept with
      numbered := fun e member => ⟨(kept.numbered e member).1, by
        have := (kept.numbered e member).2
        exact this.trans (Nat.le_succ _)⟩
      traced := fun e member gone => { kept.traced e member gone with }
      watermark := kept.watermark.trans (Nat.le_succ _) }
  split
  · refine ⟨?_, fun e member => ?_, fun e member => ?_, fun e member gone => ?_,
      consumed.watermark⟩
    · refine pairwise_append.mpr ⟨kept.increasing, pairwise_singleton _ _, ?_⟩
      intro old member new here
      obtain rfl := mem_singleton.mp here
      exact Nat.lt_succ_of_le (kept.numbered old member).2
    · rw [mem_append] at member ⊢
      exact member.imp_left (kept.held e)
    · rcases mem_append.mp member with old | new
      · exact consumed.numbered e old
      · obtain rfl := mem_singleton.mp new
        exact ⟨Nat.succ_pos _, le_rfl⟩
    · rw [mem_append, not_or] at gone
      rcases mem_append.mp member with old | new
      · exact { kept.traced e old gone.1 with }
      · exact absurd new gone.2
  · cases k with
    | files => exact consumed
    | postgres | memory => exact kept

/-- A prune that has written everything: the survivors, a watermark that covers the victims
and records that do. -/
theorem Kept.pruned {s : Stream} (kept : Kept s)
    (splits : Splits s.events victims survivors) {pruned : Table RunID PrunedRecord}
    (attributed : ∀ v ∈ victims, v.repoID ≠ "" → v.runID ≠ "")
    (spec : Grows s.pruned pruned ∧ ∀ v ∈ victims, v.runID ≠ "" → Covers pruned v) :
    Kept { s with events := survivors, retained := s.highest victims, pruned := pruned } where
  increasing := kept.increasing
  held e member := kept.held e (splits.kept.subset member)
  numbered := kept.numbered
  traced e appended gone := by
    by_cases present : e ∈ s.events
    · have victim := (splits.parts e present).resolve_right gone
      exact ⟨le_foldl_max (.inr (mem_map_of_mem victim)), attributed e victim,
        spec.2 e victim⟩
    · have old := kept.traced e appended present
      exact ⟨le_foldl_max (.inl old.global), old.attributed,
        fun run => (old.covered run).grows spec.1⟩
  watermark := by
    refine foldl_max_le.mpr ⟨kept.watermark, fun seq member => ?_⟩
    obtain ⟨v, victim, rfl⟩ := mem_map.mp member
    exact (kept.numbered v (kept.held v (splits.victims v victim))).2

/-- Records may run ahead of the deletions they are for. -/
theorem Kept.recorded (kept : Kept s) {pruned : Table RunID PrunedRecord}
    (grows : Grows s.pruned pruned) : Kept { s with pruned := pruned } where
  increasing := kept.increasing
  held := kept.held
  numbered := kept.numbered
  traced e appended gone := by
    have old := kept.traced e appended gone
    exact ⟨old.global, old.attributed, fun run => (old.covered run).grows grows⟩
  watermark := kept.watermark

theorem Kept.prune (kept : Kept s) (orderly : Orderly k (.prune olderThan limit writes) s) :
    Kept (s.prune k olderThan limit writes) := by
  have splits := batch_splits k olderThan limit s
  unfold Stream.prune
  simp only
  split
  · exact kept
  · cases k with
    | postgres =>
      simp only
      split
      case isTrue distinct =>
        exact kept.pruned splits (fun v member => (orderly v member).1)
          (upsert_spec orderly distinct)
      case isFalse => exact kept
    | memory =>
      exact kept.pruned splits (fun v member named => (orderly v member named).1)
        (record_spec orderly)
    | files =>
      obtain ⟨one, whole⟩ := orderly
      have spec := record_spec one
      -- Nothing written, the records only, or everything: the journal alone is excluded.
      rcases Nat.lt_or_ge writes 2 with few | many
      · simp only [show ¬ 2 ≤ writes by omega, show ¬ 3 ≤ writes by omega, if_false]
        split
        · exact kept.recorded spec.1
        · exact kept
      · simp only [show 1 ≤ writes by omega, show 2 ≤ writes by omega,
          show 3 ≤ writes by omega, if_true]
        exact kept.pruned splits (fun v member named => (one v member named).1) spec

theorem Kept.restart {s : Stream} (kept : Kept s) (k : Store) : Kept (s.restart k) := by
  cases k with
  | postgres => exact kept
  | memory => exact ⟨.nil, nofun, nofun, nofun, le_rfl⟩
  | files =>
    refine ⟨kept.increasing, kept.held, fun e appended => ?_, fun e appended gone => ?_,
      le_max_right _ _⟩
    · refine ⟨(kept.numbered e appended).1, ?_⟩
      by_cases present : e ∈ s.events
      · exact (le_foldl_max (.inr (mem_map_of_mem present))).trans (le_max_left _ _)
      · exact (kept.traced e appended present).global.trans (le_max_right _ _)
    · exact { kept.traced e appended gone with }

theorem Kept.step (kept : Kept s) (orderly : Orderly k op s) :
    Kept (step k op s) := by
  cases op with
  | append owner written e => exact kept.append k owner written e
  | prune olderThan limit writes => exact kept.prune orderly
  | restart => exact kept.restart k

/-- In every store, and for every history of appends, prunes and restarts whose prunes are
orderly: a cursor that is not reported as expired has lost nothing, and sequence numbers
only grow. -/
theorem resume_truthful (k : Store) (ops : List Op)
    (orderly : Guarded (step k) (Orderly k) ops {}) : Truthful (run (step k) ops {}) :=
  (run_guarded (I := Kept) (fun _ _ meets kept => kept.step meets) ops orderly
    ⟨.nil, nofun, nofun, nofun, le_rfl⟩).truthful

/-- An event of a run and its repository. -/
def queued : ExecutionEvent := { runID := "run", repoID := "repo" }

theorem pruned_and_restarted_truthful :
    Truthful (run (step .files) [.append "" true queued, .prune 10 0 3, .restart] {}) := by
  refine resume_truthful .files _ ⟨trivial, ⟨?_, by decide⟩, trivial, trivial⟩
  have batch : (Stream.batch .files 10 0 (step .files (.append "" true queued) {})).1 =
      [{ queued with seq := 1 }] := by decide +kernel
  rw [batch]
  intro v member _
  obtain rfl := mem_singleton.mp member
  refine ⟨by decide, nofun, fun u other _ => ?_⟩
  obtain rfl := mem_singleton.mp other
  exact .inr rfl

/-- An event that was deleted under a cursor that is still reported as good. -/
theorem not_truthful (scope : Scope) (e : ExecutionEvent) (named : scope.Named)
    (valid : cursorExpired 0 (s.read 0 0 scope).retainedFrom = false) (appended : e ∈ s.appended)
    (matched : scope.matches e = true) (beyond : 0 < e.seq) (deleted : e ∉ s.events) :
    ¬ Truthful s := by
  intro truthful
  exact deleted (truthful.resume named valid appended matched (by exact_mod_cast beyond))

/-- Three ways to lose an event unnoticed: the process stops between the journal and the
watermark; the row of a run forgets its repository with a later batch; an event has a
repository and no run. -/
theorem deletions_hidden :
    ¬ Truthful (run (step .files) [.append "" true queued, .prune 10 0 2, .restart] {}) ∧
    ¬ Truthful (run (step .postgres) [.append "" true queued,
      .append "" true { queued with repoID := "" }, .prune 10 1 3, .prune 10 1 3] {}) ∧
    ¬ Truthful (run (step .memory) [.append "" true { queued with runID := "" },
      .prune 10 0 3] {}) := by
  refine ⟨?_, ?_, ?_⟩
  · exact not_truthful .global { queued with seq := 1 } trivial (by decide +kernel)
      (by decide +kernel) rfl (by decide) (by decide +kernel)
  · exact not_truthful (.repo "repo") { queued with seq := 1 } (by simp [Scope.Named])
      (by decide +kernel) (by decide +kernel) rfl (by decide) (by decide +kernel)
  · exact not_truthful (.repo "repo") { queued with seq := 1, runID := "" } (by simp [Scope.Named])
      (by decide +kernel) (by decide +kernel) rfl (by decide) (by decide +kernel)

end KiwiCI.Storage.Events
