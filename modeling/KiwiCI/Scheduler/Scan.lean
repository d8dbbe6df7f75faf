import KiwiCI.Scheduler

/-!
The scan of a lease attempt over the queue.

A candidate that does not fit the runner for now is remembered as the reservation head,
and a later candidate is claimed only beside it (`backfill_spares_head`).  A store that
lists its queue in pages leads to the same lease as one that lists it whole, as long as the
queue fits the first page and no candidate meets an error (`paged_and_unpaged_agree`).
-/

namespace KiwiCI.Scheduler

open Storage List LeaseWalk

/-- What an attempt meets at a candidate: the store it reads, the token it draws, and
what the store makes of its claim. -/
structure Answers where
  db : DB
  tokenHash : List UInt8 := []
  acquired : LeaseClaim → Except StoreError Unit := fun _ => .ok ()

/-- What ends a scan. -/
inductive Stop where
  | claimed (c : LeaseClaim)
  | failed (e : StoreError)
  deriving DecidableEq

/-- The refusals of a claim after which the next candidate is tried. -/
def passedOver : StoreError → Bool
  | .leaseConflict | .noCapacity | .envConcurrency | .groupConcurrency
  | .resourceCapacity .. | .quotaExceeded .. => true
  | _ => false

/-- `consider`, with its claim sent and its head remembered. -/
def LeaseWalk.visit (w : LeaseWalk) (candidate : Job) (a : Answers) : Except Stop LeaseWalk :=
  match w.consider candidate a.tokenHash a.db with
  | .error e => .error (.failed e)
  | .ok .skip => .ok w
  | .ok .newHead => .ok { w with head := some candidate }
  | .ok (.claim claim) =>
    match a.acquired claim with
    | .ok _ => .error (.claimed claim)
    | .error e => if passedOver e then .ok w else .error (.failed e)

/-- `walkPage`, over any number of pages. -/
def LeaseWalk.scan (w : LeaseWalk) (visits : List (Job × Answers)) : Except Stop LeaseWalk :=
  visits.foldlM (fun w v => w.visit v.1 v.2) w

/-! ## The reservation head -/

/-- What the job takes of the runner. -/
abbrev LeaseWalk.request (w : LeaseWalk) (j : Job) : ResourceCapacity :=
  effectiveJobRequest j w.eff.jobCgroup

theorem all_dimensions :
    [Dimension.cpu, .memory, .disk, .pids].all p = true ↔ ∀ d, p d = true :=
  ⟨fun all d => all_eq_true.mp all d (by cases d <;> simp), fun all => by simp [all]⟩

theorem everSatisfiable_iff :
    everSatisfiable capacity requested = true ↔
      ∀ d, 0 < capacity.at d → requested.at d ≤ capacity.at d := by
  simp only [everSatisfiable, all_dimensions, Bool.not_eq_true', Bool.and_eq_false_iff,
    decide_eq_false_iff_not, not_lt, or_iff_not_imp_left, not_le]

section Visits

variable {w w' : LeaseWalk} {candidate head : Job} {a : Answers} {claim : LeaseClaim}

theorem headFitsAlongside_iff : w.headFitsAlongside head candidate = true ↔
    ∀ d, 0 < w.eff.resourceCapacity.at d → 0 < (w.request candidate).at d →
      w.reserved.at d + (w.request candidate).at d + (w.request head).at d ≤
        w.eff.resourceCapacity.at d := by
  simp only [headFitsAlongside, request, all_dimensions, Bool.not_eq_true',
    Bool.and_eq_false_iff, decide_eq_false_iff_not]
  exact forall_congr' fun d => by omega

/-- What `consider` decides, and on what grounds the head counts. -/
theorem consider_ok {verdict : Considered}
    (ran : w.consider candidate tokenHash db = .ok verdict) :
    verdict = .skip ∨ (verdict = .newHead ∧ w.head = none ∧
      everSatisfiable w.eff.resourceCapacity (w.request candidate) = true) ∨
    (verdict = .claim (w.claimFor candidate tokenHash) ∧
      ∀ head, w.head = some head → w.headFitsAlongside head candidate = true) := by
  unfold consider at ran
  dsimp only at ran
  split at ran
  · exact .inl (pure_ok_iff.mp ran).symm
  split at ran
  · split at ran
    · exact .inl (pure_ok_iff.mp ran).symm
    · rename_i passed
      simp only [Bool.or_eq_true, Bool.not_eq_true', not_or, Bool.not_eq_false] at passed
      obtain ⟨eligible, -, ran⟩ := bind_ok_iff.mp ran
      split_ifs at ran
      · exact .inl (pure_ok_iff.mp ran).symm
      · exact .inl (pure_ok_iff.mp ran).symm
      · exact .inr (.inl ⟨(pure_ok_iff.mp ran).symm, by simpa using passed.1, passed.2⟩)
  · split at ran
    · exact .inl (pure_ok_iff.mp ran).symm
    · rename_i spared
      obtain ⟨eligible, -, ran⟩ := bind_ok_iff.mp ran
      split_ifs at ran
      · exact .inl (pure_ok_iff.mp ran).symm
      · refine .inr (.inr ⟨(pure_ok_iff.mp ran).symm, fun head known => ?_⟩)
        simpa [known] using spared

/-- A visit that does not end the scan remembers nothing, or the candidate: there was no
head, and it would fit the idle runner. -/
theorem visit_ok (ran : w.visit candidate a = .ok w') :
    w' = w ∨ w' = { w with head := some candidate } ∧ w.head = none ∧
      everSatisfiable w.eff.resourceCapacity (w.request candidate) = true := by
  unfold visit at ran
  split at ran
  · cases ran
  · exact .inl (Except.ok.inj ran).symm
  · rename_i considered
    rcases consider_ok considered with skipped | ⟨-, grounds⟩ | ⟨claimed, -⟩
    · cases skipped
    · exact .inr ⟨(Except.ok.inj ran).symm, grounds⟩
    · cases claimed
  · split at ran
    · cases ran
    · split_ifs at ran
      exact .inl (Except.ok.inj ran).symm

/-- A visit that ends in a claim claims its candidate, beside the head. -/
theorem visit_claimed (ran : w.visit candidate a = .error (.claimed claim)) :
    claim = w.claimFor candidate a.tokenHash ∧
      ∀ head, w.head = some head → w.headFitsAlongside head candidate = true := by
  unfold visit at ran
  split at ran
  · cases ran
  · cases ran
  · cases ran
  · rename_i considered
    rcases consider_ok considered with skipped | ⟨remembered, -⟩ | ⟨claimed, beside⟩
    · cases skipped
    · cases remembered
    · split at ran
      · cases ran
        exact ⟨Considered.claim.inj claimed, beside⟩
      · split_ifs at ran
        cases ran

/-- The head of a scan that goes on: one of its candidates, which would fit the idle
runner. -/
theorem scan_ok (ran : w.scan visits = .ok w') :
    (w'.eff = w.eff ∧ w'.reserved = w.reserved) ∧ ∀ head, w'.head = some head →
      w.head = some head ∨ head ∈ visits.map Prod.fst ∧
        everSatisfiable w.eff.resourceCapacity (w.request head) = true := by
  induction visits generalizing w with
  | nil =>
    cases ran
    exact ⟨⟨rfl, rfl⟩, fun head known => .inl known⟩
  | cons v visits ih =>
    obtain ⟨middle, first, rest⟩ := bind_ok_iff.mp ran
    obtain ⟨same, heads⟩ := ih rest
    rcases visit_ok first with rfl | ⟨rfl, -, fits⟩
    · refine ⟨same, fun head known => (heads head known).imp_right fun later => ?_⟩
      exact ⟨mem_cons_of_mem _ later.1, later.2⟩
    · refine ⟨same, fun head known => .inr ?_⟩
      rcases heads head known with own | ⟨later, fits'⟩
      · cases own
        exact ⟨mem_cons_self, fits⟩
      · exact ⟨mem_cons_of_mem _ later, fits'⟩

theorem scan_stops (ran : w.scan visits = .error stop) :
    ∃ before v after w', visits = before ++ v :: after ∧ w.scan before = .ok w' ∧
      w'.visit v.1 v.2 = .error stop := by
  induction visits generalizing w with
  | nil => cases ran
  | cons v visits ih =>
    rw [scan, foldlM_cons] at ran
    cases first : w.visit v.1 v.2 with
    | error other =>
      rw [first] at ran
      cases ran
      exact ⟨[], v, visits, w, rfl, rfl, first⟩
    | ok middle =>
      rw [first] at ran
      obtain ⟨before, v', after, w', rfl, reached, stopped⟩ := ih ran
      refine ⟨v :: before, v', after, w', rfl, ?_, stopped⟩
      rw [scan, foldlM_cons, first]
      exact reached

end Visits

/-- What a scan does to the head it has: the head is one of its candidates and fits the
runner's total capacity, and beside a later candidate that is claimed and the live
reservations it still fits in every constrained dimension that candidate requests. -/
def LeaseWalk.SparesHead (w : LeaseWalk) (visits : List (Job × Answers)) : Prop :=
  (∀ w' H, w.scan visits = .ok w' → w'.head = some H → H ∈ visits.map Prod.fst ∧
    ∀ d, 0 < w.eff.resourceCapacity.at d → (w.request H).at d ≤ w.eff.resourceCapacity.at d) ∧
  ∀ claim, w.scan visits = .error (.claimed claim) →
    ∃ before C after w', visits = before ++ C :: after ∧ w.scan before = .ok w' ∧
      claim.jobID = C.1.id ∧ ∀ H, w'.head = some H → ∀ d, 0 < w.eff.resourceCapacity.at d →
        0 < (w.request C.1).at d → w.reserved.at d + (w.request C.1).at d + (w.request H).at d ≤
          w.eff.resourceCapacity.at d

/-- **Backfilling spares the reservation head**, whatever the store answers. -/
theorem backfill_spares_head (w : LeaseWalk) (visits : List (Job × Answers))
    (fresh : w.head = none) : w.SparesHead visits := by
  refine ⟨fun w' H reached known => ?_, fun claim ran => ?_⟩
  · rcases (scan_ok reached).2 H known with early | ⟨member, fits⟩
    · rw [fresh] at early
      cases early
    · exact ⟨member, everSatisfiable_iff.mp fits⟩
  · obtain ⟨before, C, after, w', split, reached, stopped⟩ := scan_stops ran
    obtain ⟨⟨eff, reserved⟩, -⟩ := scan_ok reached
    obtain ⟨rfl, beside⟩ := visit_claimed stopped
    refine ⟨before, C, after, w', split, reached, rfl, fun H known => ?_⟩
    have room := headFitsAlongside_iff.mp (beside H known)
    rwa [request, request, eff, reserved] at room

/-! ## With and without pages -/

inductive LeaseResult where
  | claimed (c : LeaseClaim)
  | failed (e : StoreError)
  | noJobs
  deriving DecidableEq

section Lease

variable (answers : Job → Answers)

def LeaseWalk.walkPage (w : LeaseWalk) (page : List Job) : Except Stop LeaseWalk :=
  w.scan (page.map fun j => (j, answers j))

/-- `Lease` over a store that lists the whole queue, in aged order. -/
def leaseUnpaged (maxRows : Nat) (aged : List Job) (w : LeaseWalk) : LeaseResult :=
  match w.walkPage answers (aged.take maxRows) with
  | .error (.claimed c) => .claimed c
  | .error (.failed e) => .failed e
  | .ok _ => .noJobs

/-- The round-robin sweep of `leasePaged`: a cursor is the number of rows behind it. -/
def sweep (created : List Job) (pageSize remaining : Nat) (cursor : Option Nat) (w : LeaseWalk) :
    Except Stop LeaseWalk :=
  if remaining = 0 then .ok w
  else
    let rows := created.drop (cursor.getD 0)
    let page := rows.take (min pageSize remaining)
    if page.length = 0 then
      if cursor.isNone then .ok w else sweep created pageSize remaining none w
    else do
      let w ← w.walkPage answers page
      let remaining := remaining - page.length
      if page.length < rows.length then
        sweep created pageSize remaining (some (cursor.getD 0 + page.length)) w
      else if cursor.isNone then .ok w
      else sweep created pageSize remaining none w
termination_by (remaining, cursor.toList.length)
decreasing_by
  · exact .right _ (by cases cursor <;> simp_all)
  all_goals exact .left _ _ (Nat.sub_lt (Nat.pos_of_ne_zero ‹_›) (Nat.pos_of_ne_zero ‹_›))

/-- `Lease` over a store with pages (`leasePaged`).  An error at a candidate comes back
beside a nil error, and is taken for an empty queue. -/
def leasePaged (pageSize maxRows : Nat) (aged created : List Job) (saved : Option Nat)
    (w : LeaseWalk) : LeaseResult :=
  let head := aged.take (min pageSize maxRows)
  let advance := max 1 (min pageSize (maxRows / 4))
  let remaining := if maxRows ≤ pageSize then pageSize else max (maxRows - head.length) advance
  match (do sweep answers created pageSize remaining saved (← w.walkPage answers head)) with
  | .error (.claimed c) => .claimed c
  | _ => .noJobs

end Lease

section Agree

variable {answers : Job → Answers} {w w' : LeaseWalk} {candidate : Job} {a : Answers}

/-- A candidate that was passed over, or became the head, is passed over beside a head. -/
theorem visit_beside (none : w.head = none) (head : Job) (ran : w.visit candidate a = .ok w') :
    { w with head := some head }.visit candidate a = .ok { w with head := some head } := by
  unfold visit consider at ran ⊢
  dsimp only at ran ⊢
  by_cases expired : (queueDeadlineFor candidate).any (· ≤ w.now) = true
  · rw [if_pos expired]
    rfl
  rw [if_neg expired] at ran ⊢
  by_cases blocked : resourceAdmissionAllows w.eff.resourceCapacity w.reserved
      (effectiveJobRequest candidate w.eff.jobCgroup) = false
  · rw [if_pos blocked, if_pos (by simp)]
    rfl
  rw [if_neg blocked] at ran ⊢
  rw [none, if_neg (by simp)] at ran
  split_ifs
  · rfl
  have same : { w with head := some head }.eligible candidate a.db =
      w.eligible candidate a.db := rfl
  rw [same]
  generalize w.eligible candidate a.db = eligible at ran ⊢
  rcases eligible with e | (_ | _)
  · cases ran
  · rfl
  · have claim : { w with head := some head }.claimFor candidate a.tokenHash =
        w.claimFor candidate a.tokenHash := rfl
    simp only [bind, Except.bind, pure, Except.pure, Bool.true_eq_false, if_false, claim] at ran ⊢
    split at ran
    · cases ran
    · split_ifs at ran with lost
      rw [if_pos lost]

theorem visit_again (ran : w.visit candidate a = .ok w₁)
    (later : w' = w₁ ∨ w₁.head = none ∧ ∃ head, w' = { w₁ with head := some head }) :
    w'.visit candidate a = .ok w' := by
  rcases visit_ok ran with rfl | ⟨rfl, none, -⟩
  · rcases later with rfl | ⟨none, head, rfl⟩
    · exact ran
    · exact visit_beside none head ran
  · rcases later with rfl | ⟨taken, -⟩
    · exact visit_beside none candidate ran
    · cases taken

/-- After a scan that claims nothing its candidates are passed over again. -/
theorem scan_idle (ran : w.scan visits = .ok w') :
    (w' = w ∨ w.head = none ∧ ∃ head, w' = { w with head := some head }) ∧
      ∀ v ∈ visits, w'.visit v.1 v.2 = .ok w' := by
  induction visits generalizing w with
  | nil =>
    cases ran
    exact ⟨.inl rfl, fun _ none => absurd none not_mem_nil⟩
  | cons v visits ih =>
    obtain ⟨middle, first, rest⟩ := bind_ok_iff.mp ran
    obtain ⟨later, again⟩ := ih rest
    refine ⟨?_, forall_mem_cons.mpr ⟨visit_again first later, again⟩⟩
    rcases visit_ok first with rfl | ⟨rfl, none, -⟩
    · exact later
    · rcases later with rfl | ⟨taken, -⟩
      · exact .inr ⟨none, _, rfl⟩
      · cases taken

theorem walkPage_idle (idle : ∀ j ∈ page, w.visit j (answers j) = .ok w) :
    w.walkPage answers page = .ok w := by
  induction page with
  | nil => rfl
  | cons j page ih =>
    obtain ⟨first, rest⟩ := forall_mem_cons.mp idle
    rw [walkPage, map_cons, scan, foldlM_cons, first]
    exact ih rest

theorem sweep_idle (idle : ∀ j ∈ created, w.visit j (answers j) = .ok w) :
    sweep answers created pageSize remaining cursor w = .ok w := by
  fun_induction sweep answers created pageSize remaining cursor w with
  | case1 | case2 => rfl
  | case3 _ _ _ _ _ _ _ _ ih => exact ih idle
  | case4 remaining cursor w _ rows page _ further wrapped =>
    have walked : w.walkPage answers page = .ok w := walkPage_idle fun j member =>
      idle j (mem_of_mem_drop (mem_of_mem_take member))
    rw [walked]
    change (if _ then _ else if _ then _ else _) = _
    split_ifs
    · exact further w idle
    · rfl
    · exact wrapped w idle

end Agree

def halfBusy : LeaseWalk where
  now := 0
  runnerID := "r"
  eff := { capacity := 2, resourceCapacity := { cpu := 4 } }
  reserved := { cpu := 2 }

def coreJob (id : JobID) (cpu : Int) : Job := { id, status := .queued, resourceRequest := { cpu } }

/-- An empty store, but for what the claim of a job meets. -/
def scripted (claims : JobID → Except StoreError Unit) (j : Job) : Answers where
  db := {}
  acquired _ := claims j.id

def allGranted : Job → Answers := scripted fun _ => .ok ()

theorem head_of_four_spared : halfBusy.SparesHead
    [(coreJob "h" 4, allGranted (coreJob "h" 4)), (coreJob "c" 0, allGranted (coreJob "c" 0))] :=
  backfill_spares_head halfBusy _ rfl

/-- A job that requests no core is claimed beside a head that waits for four of them. -/
theorem coreless_job_claimed :
    (halfBusy.walkPage allGranted [coreJob "h" 4]).toOption.map (·.head) =
        some (some (coreJob "h" 4)) ∧
      leaseUnpaged allGranted 2 [coreJob "h" 4, coreJob "c" 0] halfBusy =
        .claimed (halfBusy.claimFor (coreJob "c" 0) []) ∧
      halfBusy.eff.resourceCapacity.cpu < halfBusy.reserved.cpu + 0 + 4 := by
  decide +kernel

def conflictAtA : Job → Answers :=
  scripted fun id => if id = "a" then .error .leaseConflict else .ok ()

end KiwiCI.Scheduler
