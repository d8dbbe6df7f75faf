import KiwiCI.Storage.Insertion
import KiwiCI.Storage.Terminal

/-!
What `InsertCompiledRun` leaves of the runs it supersedes.

After the rows of the new run are in, no call of the transaction adds a job row
or rewrites an open run row (`DB.Narrows`).  The jobs `supersededJobIDsTx`
selects are cancelled and stay over, so a run it selects has no open job left.
-/

namespace KiwiCI.Storage

open Table

/-- Job rows evolve and none is added; run rows that are not over are as they were. -/
structure DB.Narrows (db db' : DB) : Prop where
  jobs : ∀ id row', db'.jobs.get? id = some row' →
    ∃ row, db.jobs.get? id = some row ∧ row.Evolves row'
  runs : ∀ id run, db'.runs.get? id = some run → run.status.terminal = false →
    db.runs.get? id = some run

namespace DB.Narrows

variable {db db' : DB}

theorem ofTables (jobs : db'.jobs = db.jobs) (runs : db'.runs = db.runs) : db.Narrows db' where
  jobs := fun _ row' found => ⟨row', jobs ▸ found, .refl row'⟩
  runs := fun _ _ found _ => runs ▸ found

theorem refl (db : DB) : db.Narrows db := .ofTables rfl rfl

theorem trans {a c : DB} (first : a.Narrows b) (second : b.Narrows c) : a.Narrows c where
  jobs := by
    intro id row' found
    obtain ⟨middle, there, late⟩ := second.jobs id row' found
    obtain ⟨row, start, early⟩ := first.jobs id middle there
    exact ⟨row, start, early.trans late⟩
  runs := fun id run found unsettled => first.runs id run (second.runs id run found unsettled) unsettled

theorem ofPut {id : JobID} (found : db.jobs.get? id = some row)
    (evolves : row.Evolves row') (written : db'.jobs = db.jobs.put id row')
    (runs : db'.runs = db.runs) : db.Narrows db' where
  jobs := by
    intro other late there
    rw [written, get?_put] at there
    split at there <;> rename_i same
    · cases there
      exact ⟨row, same ▸ found, evolves⟩
    · exact ⟨late, there, .refl late⟩
  runs := fun _ _ there _ => runs ▸ there

theorem recompute (ran : recomputeDependentTx now db depID = .ok db') :
    db.Narrows db' := by
  rcases recomputeDependentTx_inv ran with
    ⟨rfl, _⟩ | ⟨row, outcome, found, decodes, waiting, _, rfl⟩
  · exact .refl _
  · exact .ofPut found (.writeDependent decodes waiting (resolveDependent_spec _ _ _)
      (resolveDependent_not_running waiting)) rfl rfl

theorem recomputeAll {settled : List JobID}
    (ran : settled.foldlM (fun db id => recomputeDependentsTx now id db) db = .ok db') :
    db.Narrows db' :=
  foldlM_rel (r := DB.Narrows) .refl .trans _ (fun _ _ _ _ each =>
    foldlM_rel (r := DB.Narrows) .refl .trans _
      (fun _ _ _ _ one => .recompute one) each) ran

theorem cancelRun (ran : cancelRunRowTx now db runID = .ok db') :
    db.Narrows db' := by
  unfold cancelRunRowTx at ran
  split at ran
  · exact pure_ok_iff.mp ran ▸ .refl _
  · split at ran
    · exact pure_ok_iff.mp ran ▸ .refl _
    · obtain ⟨_, _, ran⟩ := bind_ok_iff.mp ran
      cases pure_ok_iff.mp ran
      refine ⟨fun id row' found => ⟨row', found, .refl row'⟩, fun id run found unsettled => ?_⟩
      rw [get?_put] at found
      split at found
      · cases found
        cases unsettled
      · exact found

end DB.Narrows

/-! ## Supersession -/

section Supersession

variable {now : Time} {newRunID : RunID} {db db' : DB}

theorem supersedeRow_runs (id : JobID) (row : JobRow) (j : Job) :
    (supersedeRow now newRunID id row j db).runs = db.runs := by
  unfold supersedeRow
  dsimp only
  split_ifs <;> rfl

theorem supersedeJob_runs {id : JobID}
    (ran : supersedeJob now newRunID acc id = .ok acc') : acc'.db.runs = acc.db.runs := by
  obtain ⟨_, _, kept⟩ := bind_ok_iff.mp ran
  split at kept
  · rw [← pure_ok_iff.mp kept]
  · split at kept
    · rw [← pure_ok_iff.mp kept]
    · obtain ⟨j, _, kept⟩ := bind_ok_iff.mp kept
      rw [← pure_ok_iff.mp kept]
      exact supersedeRow_runs _ _ _

theorem supersedeJob_narrows {id : JobID}
    (ran : supersedeJob now newRunID acc id = .ok acc') : acc.db.Narrows acc'.db := by
  rcases supersedeJob_inv ran with ⟨rfl, _⟩ | ⟨row, row', ends, _⟩
  · exact .refl _
  · exact .ofPut ends.found ends.ended.evolves ends.jobs (supersedeJob_runs ran)

theorem cancelSupersededTx_narrows {ids : List JobID}
    (ran : cancelSupersededTx now ids newRunID db = .ok db') : db.Narrows db' := by
  simp only [cancelSupersededTx, bind_ok_iff] at ran
  obtain ⟨acc, jobs, resolved, recomputed, runs⟩ := ran
  have cancelled : db.Narrows acc.db :=
    foldlM_rel (r := fun a b : Superseding => a.db.Narrows b.db) (fun _ => .refl _)
      (fun first second => first.trans second) ids (fun _ _ _ _ each => supersedeJob_narrows each) jobs
  have closed : resolved.Narrows db' :=
    foldlM_rel (r := DB.Narrows) .refl .trans _
      (fun _ _ _ _ each => .cancelRun each) runs
  exact (cancelled.trans (.recomputeAll recomputed)).trans closed

theorem Cancels.open_iff (loop : Cancels ids ended db db') (id : JobID) :
    db'.Open id ↔ db.Open id ∧ id ∉ ids := by
  induction loop with
  | nil => simp
  | skip isOver _ ih =>
    rw [ih, List.mem_cons, not_or]
    refine and_congr_right fun opened => ⟨fun out => ⟨?_, out⟩, fun out => out.2⟩
    rintro rfl
    exact isOver opened
  | cancel ends _ ih => rw [ih, ends.open_iff rfl, List.mem_cons, not_or, and_assoc]

/-- The jobs given to the supersession are over after it, in a coherent store. -/
theorem cancelSupersededTx_over
    (coherent : db.Coherent) (ran : cancelSupersededTx now ids newRunID db = .ok db') {id : JobID}
    (asked : id ∈ ids)
    {row' : JobRow} (found : db'.jobs.get? id = some row') : row'.status.terminal = true := by
  obtain ⟨ended, left, resolved, loop, recomputed, follows⟩ := cancelSupersededTx_inv ran
  have tail : left.Narrows resolved := .recomputeAll recomputed
  rw [follows.jobs] at found
  obtain ⟨row, held, evolves⟩ := tail.jobs id row' found
  have closed : row.status.terminal = true := by
    by_contra unsettled
    rw [Bool.not_eq_true] at unsettled
    exact ((loop.open_iff id).mp ⟨row, held, unsettled⟩).2 asked
  have settled : left.Coherent := DB.Absorbs.coherent (loop.evolvesRows.mono .ofEvolves) coherent
  rw [evolves.absorbing (settled id row held) closed]
  exact closed

end Supersession

/-! ## The enqueue -/

/-- The policy names a repository and a group. -/
def SupersedePolicy.Active (p : SupersedePolicy) : Prop :=
  Text.trimSpace p.repoID ≠ "" ∧ Text.trimSpace p.concurrencyGroup ≠ ""

/-- Another run of the policy's group that is not over. -/
structure Rival (p : SupersedePolicy) (newRunID runID : RunID) (status : Status) (run : Run) : Prop where
  other : runID ≠ newRunID
  unsettled : status.terminal = false
  grouped : run.concurrencyGroup = Text.trimSpace p.concurrencyGroup

/-- The two repository identities of a run agree on the policy's repository. -/
def IdentityAgrees (p : SupersedePolicy) (run : Run) : Prop :=
  runRepoIDSQL run = Text.trimSpace p.repoID ↔ repoIDForRun run = Text.trimSpace p.repoID

/-- They agree for every rival with an open job. -/
def DB.IdentitiesAgree (p : SupersedePolicy) (newRunID : RunID) (db : DB) : Prop :=
  p.Active → ∀ runID run id row, db.runs.get? runID = some run →
    Rival p newRunID runID run.status run.payload → db.jobs.get? id = some row →
      row.runID = runID → row.status.terminal = false → IdentityAgrees p run.payload

/-- No rival of the policy's repository has an open job. -/
def DB.Superseded (p : SupersedePolicy) (newRunID : RunID) (db : DB) : Prop :=
  p.Active → ∀ runID run id row, db.runs.get? runID = some run →
    Rival p newRunID runID run.status run.payload →
      repoIDForRun run.payload = Text.trimSpace p.repoID → db.jobs.get? id = some row →
        row.runID = runID → row.status.terminal = true

/-- `InsertCompiledRun` supersedes the rivals, where the identities agree. -/
theorem insertCompiledRun_superseded {c : Call}
    (coherent : db.Coherent) (asked : req.supersede = some p)
    (own : ∀ entry ∈ req.jobs, entry.2.runID = req.run.id)
    (agree : db.IdentitiesAgree p req.run.id) (ran : insertCompiledRun c req db = .ok db') :
    db'.Superseded p req.run.id := by
  obtain ⟨claimed, inserted, superseded, before, rows, previous, after⟩ := insertCompiledRun_inv ran
  obtain ⟨fresh, inserts, only⟩ := insertCompiledRows_inv rows
  simp only [supersedePrevious, asked, whenSome, bind_ok_iff] at previous
  obtain ⟨byPolicy, policy, named⟩ := previous
  have insertedCoherent : inserted.Coherent :=
    DB.Absorbs.coherent ((insertCompiledRows_evolves rows).mono .ofEvolves)
      fun id row found => coherent id row (before.elsewhere.jobs ▸ found)
  have tail : byPolicy.Narrows db' :=
    (cancelSupersededTx_narrows named).trans (.ofTables after.jobs after.runs)
  have whole : inserted.Narrows db' := (cancelSupersededTx_narrows policy).trans tail
  rintro active runID run id row there rival repo found rfl
  by_contra unsettled
  rw [Bool.not_eq_true] at unsettled
  -- back to the rows the policy was resolved on
  obtain ⟨middle, held, late⟩ := tail.jobs id row found
  obtain ⟨start, begun, early⟩ := (cancelSupersededTx_narrows policy).jobs id middle held
  have opened : start.status.terminal = false := by
    by_contra isOver
    rw [Bool.not_eq_false] at isOver
    have same := (early.trans late).absorbing (insertedCoherent id start begun) isOver
    rw [same, isOver] at unsettled
    cases unsettled
  have runRow := whole.runs _ run there rival.unsettled
  have sameRun : row.runID = start.runID := (early.trans late).runID
  have selected : id ∈ supersededJobIDsTx p req.run.id inserted := by
    refine mem_supersededJobIDsTx.mpr ⟨active, start, begun, opened, ?_⟩
    refine mem_supersededRuns.mpr ⟨run, sameRun ▸ runRow, sameRun ▸ rival.other, ?_, rival.grouped,
      rival.unsettled⟩
    -- the run and the job were there before the enqueue
    have oldRun : db.runs.get? row.runID = some run := by
      rw [only] at runRow
      simp only [get?_put, rival.other, if_false, before.runs] at runRow
      exact runRow
    rcases inserts.only id start begun with ⟨old, there, plain⟩ | ⟨j, member, _, plain⟩
    · obtain ⟨oldRunID, oldStatus, _⟩ := JobRow.plain_eq plain
      rw [before.elsewhere.jobs] at there
      exact (agree active row.runID run id old oldRun rival there (oldRunID ▸ sameRun.symm)
        (oldStatus ▸ opened)).mpr repo
    · have new : start.runID = j.runID := (JobRow.plain_write plain).1
      obtain ⟨entry, listed, rfl⟩ := List.mem_map.mp member
      exact absurd (sameRun.trans (new.trans (own entry listed))) rival.other
  have isOver := cancelSupersededTx_over insertedCoherent policy selected held
  have same := late.absorbing (DB.Absorbs.coherent
    ((cancelSupersededTx_evolves policy).mono .ofEvolves) insertedCoherent id middle held) isOver
  rw [same, isOver] at unsettled
  cases unsettled

end KiwiCI.Storage
