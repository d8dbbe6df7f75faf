import KiwiCI.Auth.Rbac
import KiwiCI.Storage.Schema

/-!
The run list and who may see a run in it:
`internal/storage/postgres_runs_page_authz.go` and `postgres_runs_page.go`.

A principal's repository entries are normalised once into a `RunAuthzPolicy`, and
the collection is filtered by `allows` before a page of it is cut.  `canReadRepo`
decides the same question for one run.  The two resolve a repository on their own,
and `listed_as_read_iff` says for which spellings of it they agree.
-/

namespace KiwiCI.Storage

variable {p : Principal} {repoID : String}

open Text Auth List Principal

/-! ## The policy -/

/-- The sets of one kind of grant key: those whose effective entry grants reading, those
with an entry, and those with conflicting entries. -/
structure GrantSets where
  read : List String := []
  present : List String := []
  conflict : List String := []

structure RunAuthzPolicy where
  unrestricted : Bool := false
  globalRead : Bool := false
  identities : GrantSets := {}
  aliases : GrantSets := {}

/-- The loops that turn recorded entries into sets. -/
def grantSets (m : Recorded String RepositoryPermission) : GrantSets where
  read := ((m.entries.rows.filter fun row => row.1 ∉ m.conflicts && row.2.read).map
    Sigma.fst).insertionSort (· ≤ ·)
  present := (m.entries.rows.map Sigma.fst).insertionSort (· ≤ ·)
  conflict := ((m.entries.rows.filter fun row => row.1 ∈ m.conflicts).map
    Sigma.fst).insertionSort (· ≤ ·)

/-- `RunAuthzPolicyForPrincipal`; it records the entries as `resolveRepoGrantEntries` does,
without the full names of the identities. -/
def runAuthzPolicyForPrincipal (principal : Option Principal) : RunAuthzPolicy :=
  match principal with
  | none => { unrestricted := true, globalRead := true }
  | some p =>
    if p.has .admin then { unrestricted := true, globalRead := true }
    else if p.repositories.rows.isEmpty then
      { unrestricted := p.has .read, globalRead := p.has .read }
    else
      let index := grantIndex (fun a b => decide (a = b)) p.repositories
      { globalRead := p.has .read
        identities := grantSets index.identities
        aliases := grantSets index.aliases }

/-! ## Candidates -/

def foldRepoCandidate (s : String) : String := if isTagged s then s else foldRepoFullName s

/-- `splitRepoCandidate`: whether the value is canonical, and its full name. -/
def splitRepoCandidate (repoID : String) : Bool × String :=
  match cut "/" repoID with
  | none => (false, foldRepoCandidate repoID)
  | some (_, suffix) =>
    if contains "/" suffix then (true, foldRepoCandidate suffix)
    else (false, foldRepoCandidate repoID)

def canonicalCandidateID (repoID fullName : String) : String :=
  match cut "/" repoID with
  | none => repoID
  | some (host, _) =>
    let host := canonicalHost host
    if host = "" then repoID else host ++ "/" ++ foldRepoCandidate fullName

/-- What the sets say of a key, conflict first; `none` when there is no entry. -/
def GrantSets.decides (sets : GrantSets) (key : String) : Option Bool :=
  if key ∈ sets.conflict then some false
  else if key ∈ sets.present then some (key ∈ sets.read)
  else none

def RunAuthzPolicy.allows (pol : RunAuthzPolicy) (repoID : String) : Bool :=
  if pol.unrestricted then true
  else if repoID = "" then pol.globalRead
  else
    let (canonical, fullName) := splitRepoCandidate repoID
    if canonical then
      match pol.identities.decides (canonicalCandidateID repoID fullName) with
      | some decision => decision
      | none => (pol.aliases.decides fullName).getD pol.globalRead
    else (pol.aliases.decides fullName).getD pol.globalRead

/-! ## Pages -/

def normalizeRunsPageLimit (limit : Int) : Nat :=
  if limit ≤ 0 then 1000 else if limit > 10000 then 10000 else limit.toNat

def runOlderThan (run : Run) (afterCreatedAt : Time) (afterID : String) : Bool :=
  if afterCreatedAt = 0 && afterID = "" then true
  else if run.createdAt < afterCreatedAt then true
  else if run.createdAt > afterCreatedAt then false
  else run.id < afterID

/-- The order of the collection: newest first, ties broken by the identifier. -/
def runNewerThan (a b : Run) : Bool :=
  if a.createdAt ≠ b.createdAt then a.createdAt > b.createdAt else a.id > b.id

def sortRunsNewestFirst (runs : List Run) : List Run :=
  runs.insertionSort fun a b => runNewerThan b a = false

structure RunPage where
  runs : List Run := []
  nextCreatedAt : Time := 0
  nextID : String := ""
  hasMore : Bool := false
  deriving DecidableEq, Repr

/-- `PageRuns`; the selection of the newest runs ahead of the sort is left out, since the
sort and the cut that follow make it again. -/
def pageRuns (runs : List Run) (afterCreatedAt : Time) (afterID : String) (limit : Int) : RunPage :=
  let limit := normalizeRunsPageLimit limit
  let eligible := sortRunsNewestFirst (runs.filter (runOlderThan · afterCreatedAt afterID))
  if eligible.length > limit then
    let page := eligible.take limit
    match page.getLast? with
    | some last =>
      { runs := page, hasMore := true, nextCreatedAt := last.createdAt, nextID := last.id }
    | none => { runs := page, hasMore := true }
  else { runs := eligible }

def pageRunsAuthorized (runs : List Run) (policy : RunAuthzPolicy) (afterCreatedAt : Time)
    (afterID : String) (limit : Int) : RunPage :=
  if policy.unrestricted then pageRuns runs afterCreatedAt afterID limit
  else pageRuns (runs.filter fun run => policy.allows (repoIDForRun run)) afterCreatedAt afterID
    limit

/-! ## What the policy says -/

def readVerdict : Verdict RepositoryPermission → Option Bool
  | .noEntry => none
  | .found perm => some perm.read
  | .conflict => some false

theorem grantSets_decides (holds : m.Holds key seen) :
    (grantSets m).decides key = readVerdict (m.resolve key) := by
  have member : ∀ perm, (⟨key, perm⟩ : Sigma fun _ => RepositoryPermission) ∈ m.entries.rows ↔
      m.entries.get? key = some perm := fun perm => Table.mem_rows_iff
  have conflicting : key ∈ (grantSets m).conflict ↔ key ∈ m.conflicts := by
    simp only [grantSets, mem_insertionSort, mem_map, mem_filter,
      decide_eq_true_eq]
    constructor
    · rintro ⟨row, ⟨-, marked⟩, rfl⟩
      exact marked
    · intro marked
      obtain ⟨a, ha, -⟩ := verdict_conflict_iff.mp (holds.conflicting.mp marked)
      obtain ⟨head, rest, rfl⟩ := exists_cons_of_ne_nil (ne_nil_of_mem ha)
      exact ⟨⟨key, head⟩, ⟨(member head).mpr holds.first, marked⟩, rfl⟩
  have present : key ∈ (grantSets m).present ↔ m.entries.get? key ≠ none := by
    simp only [grantSets, mem_insertionSort, mem_map]
    constructor
    · rintro ⟨row, there, rfl⟩
      rw [(member row.2).mp there]
      exact Option.some_ne_none _
    · intro there
      obtain ⟨perm, found⟩ := Option.ne_none_iff_exists'.mp there
      exact ⟨⟨key, perm⟩, (member perm).mpr found, rfl⟩
  unfold GrantSets.decides Recorded.resolve
  by_cases marked : key ∈ m.conflicts
  · rw [if_pos (conflicting.mpr marked), if_pos marked]
    rfl
  · rw [if_neg (fun there => marked (conflicting.mp there)), if_neg marked]
    cases found : m.entries.get? key with
    | none => rw [if_neg (fun there => present.mp there found)]; rfl
    | some perm =>
      rw [if_pos (present.mpr (by rw [found]; exact Option.some_ne_none _))]
      have reads : key ∈ (grantSets m).read ↔ perm.read = true := by
        simp only [grantSets, mem_insertionSort, mem_map, mem_filter,
          Bool.and_eq_true, decide_eq_true_eq]
        constructor
        · rintro ⟨row, ⟨there, -, granted⟩, rfl⟩
          rw [(member row.2).mp there] at found
          rw [← Option.some.inj found]
          exact granted
        · intro granted
          exact ⟨⟨key, perm⟩, ⟨(member perm).mpr found, marked, granted⟩, rfl⟩
      simp [readVerdict, reads]

/-- What a principal's entries say of a candidate, its own entries first. -/
def candidateVerdict (p : Principal) (repoID : String) : Option Bool :=
  let (canonical, fullName) := splitRepoCandidate repoID
  if canonical then
    (readVerdict (p.identityVerdict (canonicalCandidateID repoID fullName))).or
      (readVerdict (p.aliasVerdict fullName))
  else readVerdict (p.aliasVerdict fullName)

theorem verdicts_empty (empty : p.repositories.rows = []) (key : String) :
    p.identityVerdict key = .noEntry ∧ p.aliasVerdict key = .noEntry := by
  simp [identityVerdict, aliasVerdict, empty, identityPairs, aliasPairs,
    valuesAt, verdict]

theorem allows_policy (plain : p.has .admin = false) (named : repoID ≠ "") :
    (runAuthzPolicyForPrincipal (some p)).allows repoID =
      (candidateVerdict p repoID).getD (p.has .read) := by
  unfold runAuthzPolicyForPrincipal
  dsimp only
  rw [if_neg (by simp [plain])]
  by_cases empty : p.repositories.rows = []
  · have nothing : candidateVerdict p repoID = none := by
      unfold candidateVerdict
      dsimp only
      simp [(verdicts_empty empty _).1, (verdicts_empty empty _).2, readVerdict]
    rw [if_pos (by simp [empty]), nothing, Option.getD_none]
    unfold RunAuthzPolicy.allows
    cases p.has .read with
    | true => rfl
    | false =>
      dsimp only
      rw [if_neg (by simp), if_neg named]
      simp [GrantSets.decides]
  · rw [if_neg (by simpa using empty)]
    unfold RunAuthzPolicy.allows candidateVerdict
    dsimp only
    rw [if_neg (by simp), if_neg named, grantSets_decides (p.holds_identities _),
      grantSets_decides (p.holds_aliases _), (p.holds_identities _).resolve_eq,
      (p.holds_aliases _).resolve_eq]
    change (if _ then _ else _) = Option.getD (if _ then (readVerdict (verdict _)).or _ else _) _
    split
    · cases readVerdict (verdict (valuesAt (identityPairs p.repositories.rows)
        (canonicalCandidateID repoID (splitRepoCandidate repoID).2))) <;> rfl
    · rfl

/-! ## Where the two views agree -/

/-- The repository is spelled so that both views read it alike: it is blank, or a bare name
of one segment, or `host/path` with a path that is no tagged spelling with capitals. -/
def readsAlike (repoID : String) : Bool :=
  trimSpace repoID = "" ||
    !isTagged repoID &&
      match parseStoredRepoID repoID with
      | none => false
      | some (.alias _) => !contains "/" repoID
      | some (.identity _ _) =>
        match cut "/" repoID with
        | none => false
        | some (_, path) => !isTagged path || foldRepoFullName path = path

theorem canReadRepo_grant (plain : p.has .admin = false)
    (parsed : parseStoredRepoID repo = some grant) :
    canReadRepo p repo = (readVerdict (p.repoEntryGrantMode grant true)).getD (p.has .read) := by
  unfold canReadRepo authorize
  rw [if_neg (by simp [plain]), parsed]
  dsimp only
  unfold authorizeGrantMode
  rw [if_neg (by simp [plain])]
  cases p.repoEntryGrantMode grant true <;> rfl

theorem isSpace_of_blank (blank : trimSpace s = "") :
    ∀ c ∈ s.toList, isSpace c = true := by
  rw [trimSpace, onList, ← String.toList_inj, String.toList_ofList] at blank
  exact all_of_trimBy_nil blank

theorem untagged_of_blank (blank : trimSpace s = "") : isTagged s = false := by
  by_contra tagged
  rw [Bool.not_eq_false, isTagged, Bool.or_eq_true] at tagged
  have colon : ':' ∈ s.toList := by
    rcases tagged with identity | bare
    · exact mem_of_hasPrefix identity (by decide)
    · exact mem_of_hasPrefix bare (by decide)
  have space := isSpace_of_blank blank ':' colon
  revert space
  decide

theorem parseStoredRepoID_untagged (parsed : parseStoredRepoID s = some grant)
    (untagged : isTagged s = false) : validFullName s false = true ∧ UntaggedGrant s grant := by
  rcases parseStoredRepoID_some parsed with ⟨tagged, -⟩ | ⟨tagged, -⟩ | ⟨-, read⟩
  · simp [isTagged, tagged] at untagged
  · simp [isTagged, tagged] at untagged
  · exact read

theorem parseStoredRepoID_blank (blank : trimSpace s = "") : parseStoredRepoID s = none := by
  cases parsed : parseStoredRepoID s with
  | none => rfl
  | some grant =>
    have valid := (parseStoredRepoID_untagged parsed (untagged_of_blank blank)).1
    obtain ⟨named, trimmed⟩ := validFullName_trimmed valid
    exact absurd (trimmed.symm.trans blank) named

theorem candidate_blank (p : Principal) (blank : trimSpace repoID = "") :
    candidateVerdict p repoID = none := by
  have noSlash : cut "/" repoID = none := by
    rw [cut_char_none (c := '/') rfl]
    intro member
    have space := isSpace_of_blank blank '/' member
    revert space
    decide
  unfold candidateVerdict splitRepoCandidate
  rw [noSlash]
  dsimp only
  rw [if_neg (by simp), foldRepoCandidate, if_neg (by simp [untagged_of_blank blank]),
    foldRepoFullName, p.aliasVerdict_blank (by rw [trimSpace_lower, blank]; rfl)]
  rfl

/-- The empty repository is decided by the global role alone. -/
theorem allows_policy_empty (plain : p.has .admin = false) :
    (runAuthzPolicyForPrincipal (some p)).allows "" = p.has .read := by
  unfold runAuthzPolicyForPrincipal
  dsimp only
  rw [if_neg (by simp [plain])]
  unfold RunAuthzPolicy.allows
  split
  · cases p.has .read <;> rfl
  · rfl

theorem candidate_bare (p : Principal) (untagged : isTagged repoID = false)
    (flat : ∀ first rest, cut "/" repoID = some (first, rest) → '/' ∉ rest.toList) :
    candidateVerdict p repoID = readVerdict (p.aliasVerdict (foldRepoFullName repoID)) := by
  have split : splitRepoCandidate repoID = (false, foldRepoFullName repoID) := by
    unfold splitRepoCandidate foldRepoCandidate
    cases shape : cut "/" repoID with
    | none => simp [untagged]
    | some parts =>
      have flat' : contains "/" parts.2 = false := by
        rw [← Bool.not_eq_true, contains_char (c := '/') rfl]
        exact flat parts.1 parts.2 shape
      simp [untagged, flat']
  unfold candidateVerdict
  rw [split]
  rfl

theorem fold_candidate (kept : isTagged path = false ∨ foldRepoFullName path = path) :
    foldRepoCandidate path = foldRepoFullName path ∧
      foldRepoCandidate (foldRepoFullName path) = foldRepoFullName path := by
  unfold foldRepoCandidate
  refine ⟨?_, ?_⟩
  · rcases kept with untagged | same
    · rw [if_neg (by simp [untagged])]
    · rw [same, ite_self]
  · unfold foldRepoFullName
    rw [lower_lower, ite_self]

/-- A candidate with a host is looked up under the host, then under the bare name. -/
theorem candidate_nested (p : Principal)
    (shape : cut "/" repoID = some (first, path)) (nested : '/' ∈ path.toList)
    (host : validCanonicalHost (canonicalHost first) = true)
    (folds : foldRepoCandidate path = name) (again : foldRepoCandidate name = name) :
    candidateVerdict p repoID =
      (readVerdict (p.identityVerdict (canonicalHost first ++ "/" ++ name))).or
        (readVerdict (p.aliasVerdict name)) := by
  have split : splitRepoCandidate repoID = (true, name) := by
    unfold splitRepoCandidate
    rw [shape]
    dsimp only
    rw [if_pos ((contains_char rfl).mpr nested), folds]
  have named : canonicalHost first ≠ "" := by
    intro empty
    rw [empty] at host
    revert host
    decide
  unfold candidateVerdict
  rw [split]
  dsimp only
  rw [if_pos rfl, canonicalCandidateID, shape]
  dsimp only
  rw [if_neg named, again]

theorem repoIdentityID_fold (validHost : validCanonicalHost host = true)
    (validPath : validFullName path true = true) :
    repoIdentityID host (foldRepoFullName path) = host ++ "/" ++ foldRepoFullName path := by
  have named : host ≠ "" := by
    rintro rfl
    revert validHost
    decide
  have pathed : foldRepoFullName path ≠ "" := by
    intro empty
    rw [foldRepoFullName, ← String.toList_inj, toList_lower] at empty
    exact (validFullName_trimmed validPath).1
      (String.toList_inj.mp (map_eq_nil_iff.mp empty))
  rw [repoIdentityID, if_neg (by simp [named, pathed])]
  unfold foldRepoFullName
  rw [lower_lower]

/-- Both views agree on a repository that is spelled that way. -/
theorem allows_eq_canReadRepo (same : p.Same q) (alike : readsAlike repoID = true) :
    (runAuthzPolicyForPrincipal (some p)).allows repoID = canReadRepo q repoID := by
  have role : ∀ role, p.has role = q.has role := fun role => by
    rw [has, has, same.roles]
  by_cases admin : q.has .admin = true
  · rw [runAuthzPolicyForPrincipal, canReadRepo, authorize, if_pos admin, role, admin]
    rfl
  have plain : q.has .admin = false := by simpa using admin
  have plain' : p.has .admin = false := by rw [role, plain]
  rcases Bool.or_eq_true_iff.mp alike with blank | spelled
  · have blank : trimSpace repoID = "" := by simpa using blank
    rw [canReadRepo, authorize, if_neg admin, parseStoredRepoID_blank blank]
    dsimp only
    rw [if_pos blank]
    change _ = q.has .read
    by_cases named : repoID = ""
    · rw [named, allows_policy_empty plain', role]
    · rw [allows_policy plain' named, candidate_blank p blank, Option.getD_none, role]
  · obtain ⟨untagged, spelled⟩ := Bool.and_eq_true_iff.mp spelled
    have untagged : isTagged repoID = false := by simpa using untagged
    cases parsed : parseStoredRepoID repoID with
    | none => simp [parsed] at spelled
    | some grant =>
      have named : repoID ≠ "" := by
        rintro rfl
        cases parsed
      rw [allows_policy plain' named, canReadRepo_grant plain parsed, role]
      congr 1
      have read := (parseStoredRepoID_untagged parsed untagged).2
      rw [parsed] at spelled
      cases read with
      | bare flat =>
        rw [candidate_bare p untagged flat, same.aliasVerdict_eq, q.repoEntryGrantMode_alias]
        intro entry _ host shown
        have slash := slash_of_keyIdentity shown
        rw [foldRepoFullName, toList_lower, mem_map_lowerChar (by decide)] at slash
        have absent : contains "/" repoID = false := by simpa using spelled
        rw [(contains_char rfl).mpr slash] at absent
        cases absent
      | canonical first path shape nested _ host path' =>
        rw [shape] at spelled
        have kept : isTagged path = false ∨ foldRepoFullName path = path := by simpa using spelled
        obtain ⟨once, twice⟩ := fold_candidate kept
        rw [candidate_nested p shape nested host once twice, same.identityVerdict_eq,
          same.aliasVerdict_eq, q.repoEntryGrantMode_identity, repoIdentityID_fold host path']
        cases q.identityVerdict (canonicalHost first ++ "/" ++ foldRepoFullName path) <;> rfl

/-! ## Where they differ -/

/-- A reader with the global role and one entry, which grants nothing. -/
def deniedReader (key : String) : Principal where
  roles := [.read]
  repositories := Table.empty.put key {}

theorem rows_deniedReader (key : String) :
    (deniedReader key).repositories.rows = [⟨key, {}⟩] := rfl

theorem canReadRepo_deniedReader
    (names : parseStoredRepoID key = some grant) (parsed : parseStoredRepoID repo = some grant) :
    canReadRepo (deniedReader key) repo = false := by
  have entry : (deniedReader key).repoEntryGrantMode grant true = .found {} := by
    rcases grant with ⟨host, fullName⟩ | ⟨fullName⟩
    · rw [repoEntryGrantMode_identity, identityVerdict, rows_deniedReader]
      simp [identityPairs, keyIdentity, names, valuesAt, verdict]
    · unfold repoEntryGrantMode resolveRepoGrantEntries
      dsimp only
      rw [(holds_aliases _ _).resolve_eq, rows_deniedReader]
      simp [aliasPairs, keyAlias, names, valuesAt, verdict]
  rw [canReadRepo_grant rfl parsed, entry]
  rfl

/-- The list does not see the entry unless it is recorded under what the list looks up. -/
theorem allows_deniedReader (named : repoID ≠ "")
    (unseen : candidateVerdict (deniedReader key) repoID = none) :
    (runAuthzPolicyForPrincipal (some (deniedReader key))).allows repoID = true := by
  rw [allows_policy rfl named, unseen]
  rfl

theorem aliasVerdict_deniedReader (other : keyAlias key ≠ some name) :
    (deniedReader key).aliasVerdict name = .noEntry := by
  rw [aliasVerdict, rows_deniedReader, aliasPairs, filterMap_cons,
    filterMap_nil]
  cases shown : keyAlias key with
  | none => rfl
  | some name' =>
    have differ : name' ≠ name := fun same => other (by rw [shown, same])
    simp [valuesAt, differ, verdict]

/-- A tagged spelling is not looked up under what it names. -/
theorem candidate_tagged (tagged : isTagged repoID = true)
    (parsed : parseStoredRepoID repoID = some grant) :
    candidateVerdict (deniedReader repoID) repoID = none := by
  have read : '/' ∉ repoID.toList ∧ keyAlias repoID ≠ some repoID := by
    rcases parseStoredRepoID_some parsed with ⟨opens, inner⟩ | ⟨opens, inner⟩ | ⟨untagged, -⟩
    · obtain ⟨plain, host, fullName, rfl, -⟩ := parseRepoIdentity_some inner
      rw [toList_of_hasPrefix opens]
      exact ⟨by simp [plain], by simp [keyAlias, parsed]⟩
    · obtain ⟨plain, fullName, rfl, shorter, -⟩ := parseRepoAlias_some inner
      refine ⟨by rw [toList_of_hasPrefix opens]; simp [plain], ?_⟩
      simp only [keyAlias, parsed, ne_eq, Option.some.injEq]
      intro same
      have length := congrArg length (toList_of_hasPrefix opens)
      rw [length_append, ← same] at length
      simp only [String.reduceToList, length_cons, length_nil] at length
      rw [same] at length shorter
      omega
    · rw [tagged] at untagged
      cases untagged
  have split : splitRepoCandidate repoID = (false, repoID) := by
    rw [splitRepoCandidate, (cut_char_none rfl).mpr read.1, foldRepoCandidate, if_pos tagged]
  unfold candidateVerdict
  rw [split]
  dsimp only
  rw [if_neg (by simp), aliasVerdict_deniedReader read.2]
  rfl

/-- A tagged path with capitals is looked up with them. -/
theorem candidate_tagged_path
    (shape : cut "/" repoID = some (first, path)) (nested : '/' ∈ path.toList)
    (host : validCanonicalHost (canonicalHost first) = true)
    (valid : validFullName path true = true) (names : parseStoredRepoID repoID =
      some (.identity (canonicalHost first) (foldRepoFullName path)))
    (tagged : isTagged path = true) (capitals : foldRepoFullName path ≠ path) :
    candidateVerdict (deniedReader repoID) repoID = none := by
  have whole : foldRepoCandidate path = path := if_pos tagged
  have unseen : (deniedReader repoID).identityVerdict (canonicalHost first ++ "/" ++ path) =
      .noEntry := by
    rw [identityVerdict, rows_deniedReader]
    have differ : repoIdentityID (canonicalHost first) (foldRepoFullName path) ≠
        canonicalHost first ++ "/" ++ path := by
      rw [repoIdentityID_fold host valid]
      intro same
      exact capitals (String.append_right_inj _ |>.mp same)
    simp [identityPairs, keyIdentity, names, valuesAt, verdict, differ]
  rw [candidate_nested _ shape nested host whole whole, unseen,
    aliasVerdict_deniedReader (by simp [keyAlias, names])]
  rfl

/-- A canonical entry decides a bare name with a slash for one run, but not in the list. -/
theorem differ_bare (untagged : isTagged repoID = false) (valid : validFullName repoID false = true)
    (flat : ∀ first rest, cut "/" repoID = some (first, rest) → '/' ∉ rest.toList)
    (parsed : parseStoredRepoID repoID = some (.alias (foldRepoFullName repoID)))
    (slash : '/' ∈ repoID.toList) :
    (runAuthzPolicyForPrincipal (some (deniedReader ("h/" ++ repoID)))).allows repoID = true ∧
      canReadRepo (deniedReader ("h/" ++ repoID)) repoID = false := by
  have names : parseStoredRepoID ("h/" ++ repoID) =
      some (.identity "h" (foldRepoFullName repoID)) := by
    have shape : cut "/" ("h/" ++ repoID) = some ("h", repoID) := by
      rw [cut_char_iff (c := '/') rfl]
      exact ⟨by simp, by decide⟩
    have nested : contains "/" repoID = true := (contains_char rfl).mpr slash
    have path : validFullName repoID true = true := by
      simp only [validFullName, Bool.not_false, Bool.true_or, Bool.and_true] at valid
      rw [validFullName, valid, nested]
      rfl
    have host : canonicalHost "h" = "h" := by decide +kernel
    have plain : (∀ c ∈ "h".toList, c ≠ '/' ∧ " \t\r\n\x00".toList.contains c = false) ∧
        ∀ c ∈ "h".toList.head?, isSpace c = false := by
      constructor
      · intro c member
        rw [mem_singleton.mp member]
        exact ⟨by decide, by decide +kernel⟩
      · intro c member
        cases member
        rfl
    have hosted : validFullName ("h/" ++ repoID) false = true :=
      @validFullName_hosted "h" _ (by decide) plain.1 plain.2 valid
    have named : "h/" ++ repoID ≠ "" := (validFullName_trimmed hosted).1
    rw [parseStoredRepoID, if_neg named, if_neg (by simp [hasPrefix, isPrefixOf]),
      if_neg (by simp [hasPrefix, isPrefixOf]), if_neg (by simp [hosted]),
      splitFirstPathSegment, shape]
    dsimp only
    rw [if_neg (by decide)]
    dsimp only
    rw [if_neg (by simp [nested]), host, path, if_pos (by decide)]
  have named : repoID ≠ "" := (validFullName_trimmed valid).1
  constructor
  · apply allows_deniedReader named
    rw [candidate_bare _ untagged flat, aliasVerdict_deniedReader (by simp [keyAlias, names])]
    rfl
  · have entry : (deniedReader ("h/" ++ repoID)).repoEntryGrantMode
        (.alias (foldRepoFullName repoID)) true = .found {} := by
      have unnamed : (deniedReader ("h/" ++ repoID)).aliasVerdict (foldRepoFullName repoID) =
        .noEntry := aliasVerdict_deniedReader (by simp [keyAlias, names])
      unfold repoEntryGrantMode resolveRepoGrantEntries
      dsimp only
      rw [(holds_aliases _ _).resolve_eq, show verdict _ = _ from unnamed]
      dsimp only
      rw [if_neg (by simp), GrantIndex.resolveAliasToIdentity, grantIndex, rows_deniedReader,
        foldl_cons, foldl_nil, GrantIndex.add, names]
      simp [resolveIdentities, Recorded.resolve, Recorded.record]
    rw [canReadRepo_grant rfl parsed, entry]
    rfl

/-- Some principal is answered differently on a repository that is spelled another way. -/
theorem exists_differ (unlike : readsAlike repoID = false) :
    ∃ p, (runAuthzPolicyForPrincipal (some p)).allows repoID = true ∧
      canReadRepo p repoID = false := by
  obtain ⟨blank, spelled⟩ := Bool.or_eq_false_iff.mp unlike
  have named : trimSpace repoID ≠ "" := by simpa using blank
  have present : repoID ≠ "" := by
    rintro rfl
    exact named rfl
  cases parsed : parseStoredRepoID repoID with
  | none =>
    -- open to every global reader in the list only
    refine ⟨{ roles := [.read] }, rfl, ?_⟩
    rw [canReadRepo, authorize, parsed]
    dsimp only
    rw [if_neg named]
    rfl
  | some grant =>
    by_cases tagged : isTagged repoID = true
    · exact ⟨_, allows_deniedReader present (candidate_tagged tagged parsed),
        canReadRepo_deniedReader parsed parsed⟩
    have untagged : isTagged repoID = false := by simpa using tagged
    rw [untagged, parsed] at spelled
    obtain ⟨valid, read⟩ := parseStoredRepoID_untagged parsed untagged
    cases read with
    | bare flat =>
      have slash : contains "/" repoID = true := by simpa using spelled
      exact ⟨_, differ_bare untagged valid flat parsed ((contains_char rfl).mp slash)⟩
    | canonical first path shape nested _ host valid =>
      rw [shape] at spelled
      have kept : isTagged path = true ∧ foldRepoFullName path ≠ path := by simpa using spelled
      exact ⟨_, allows_deniedReader present
        (candidate_tagged_path shape nested host valid parsed kept.1 kept.2),
        canReadRepo_deniedReader parsed parsed⟩

/-! ## The run list -/

theorem mem_of_mem_pageRuns {run : Run} {runs : List Run} {afterCreatedAt : Time}
    {afterID : String} {limit : Int}
    (member : run ∈ (pageRuns runs afterCreatedAt afterID limit).runs) : run ∈ runs := by
  have eligible : run ∈ sortRunsNewestFirst
      (runs.filter (runOlderThan · afterCreatedAt afterID)) := by
    unfold pageRuns at member
    dsimp only at member
    split at member
    · split at member <;> exact mem_of_mem_take member
    · exact member
  rw [sortRunsNewestFirst, mem_insertionSort] at eligible
  exact (mem_filter.mp eligible).1

/-- A run is listed as it is read: the policy of every principal allows exactly what
reading the run is allowed by, a run that may not be read is on no page, and it changes
neither the runs nor the cursor of one.  `q` is `p` with its map in another order. -/
structure ListedAsRead (run : Run) : Prop where
  agree : ∀ p q : Principal, p.Same q →
    (runAuthzPolicyForPrincipal (some p)).allows (repoIDForRun run) =
      canReadRepo q (repoIDForRun run)
  hidden : ∀ p q : Principal, p.Same q → canReadRepo q (repoIDForRun run) = false →
    ∀ runs afterCreatedAt afterID limit, run ∉ (pageRunsAuthorized runs
      (runAuthzPolicyForPrincipal (some p)) afterCreatedAt afterID limit).runs
  still : ∀ p q : Principal, p.Same q → canReadRepo q (repoIDForRun run) = false →
    ∀ before after afterCreatedAt afterID limit,
      pageRunsAuthorized (before ++ run :: after) (runAuthzPolicyForPrincipal (some p))
          afterCreatedAt afterID limit =
        pageRunsAuthorized (before ++ after) (runAuthzPolicyForPrincipal (some p))
          afterCreatedAt afterID limit

/-- What the policy does not allow is on no page and moves none. -/
theorem pageRunsAuthorized_refused {pol : RunAuthzPolicy} {run : Run}
    (refused : pol.allows (repoIDForRun run) = false) (afterCreatedAt : Time) (afterID : String)
    (limit : Int) :
    (∀ runs, run ∉ (pageRunsAuthorized runs pol afterCreatedAt afterID limit).runs) ∧
      ∀ before after, pageRunsAuthorized (before ++ run :: after) pol afterCreatedAt afterID limit =
        pageRunsAuthorized (before ++ after) pol afterCreatedAt afterID limit := by
  have restricted : ¬pol.unrestricted = true := by
    intro open'
    rw [RunAuthzPolicy.allows, if_pos open'] at refused
    cases refused
  unfold pageRunsAuthorized
  constructor
  · intro runs member
    rw [if_neg restricted] at member
    have allowed := (mem_filter.mp (mem_of_mem_pageRuns member)).2
    rw [refused] at allowed
    cases allowed
  · intro before after
    rw [if_neg restricted, if_neg restricted, filter_append, filter_append,
      filter_cons_of_neg (by simp [refused])]

/-- **The list shows what may be read.**  The two views of a run agree for every principal
exactly when its repository is spelled so that both read it alike. -/
theorem listed_as_read_iff (run : Run) :
    ListedAsRead run ↔ readsAlike (repoIDForRun run) = true := by
  constructor
  · intro listed
    by_contra unlike
    obtain ⟨p, allowed, unread⟩ := exists_differ (by simpa using unlike)
    have agree := listed.agree p p ⟨rfl, fun _ => rfl⟩
    rw [allowed, unread] at agree
    cases agree
  · intro alike
    have agree : ∀ p q : Principal, p.Same q → _ := fun p q same =>
      allows_eq_canReadRepo same alike
    refine ⟨agree, fun p q same unread runs afterCreatedAt afterID limit => ?_,
      fun p q same unread before after afterCreatedAt afterID limit => ?_⟩
    · exact (pageRunsAuthorized_refused ((agree p q same).trans unread) _ _ _).1 runs
    · exact (pageRunsAuthorized_refused ((agree p q same).trans unread) _ _ _).2 before after

/-- A reader whose entry denies `github.com/acme/app` is refused the run of a submission
without a clone URL that is named `acme/app`, and finds it in the list. -/
theorem denied_run_listed :
    canReadRepo (deniedReader "github.com/acme/app")
        (repoIDForRun { repoFullName := "acme/app" }) = false ∧
      (pageRunsAuthorized [{ id := "r", repoFullName := "acme/app" }]
        (runAuthzPolicyForPrincipal (some (deniedReader "github.com/acme/app"))) 0 "" 0).runs =
        [{ id := "r", repoFullName := "acme/app" }] := by
  decide +kernel

end KiwiCI.Storage
