import KiwiCI.Auth.RepoIdentity
import KiwiCI.Lib.Recorded

/-!
Role-based access control: `internal/auth/principal.go` and `internal/auth/rbac.go`.

A principal holds global roles and a map of repository entries.  The entries are
recorded by the identity or the bare name their key spells; `resolveRepoGrantEntries`
looks a repository up among them and `authorize` decides an action, from the entry
when there is one and from the global roles when there is none.
-/

namespace KiwiCI.Auth

variable {fullName : String}

open Text List

/-! ## Principals -/

inductive Role where
  | read | run | trustedRun | approve | cancel | rerun | artifactRead
  | runnerManage | policyManage | admin
  deriving DecidableEq, Repr

structure RepositoryPermission where
  read : Bool := false
  run : Bool := false
  trustedRun : Bool := false
  approve : Bool := false
  cancel : Bool := false
  rerun : Bool := false
  artifactRead : Bool := false
  deriving DecidableEq, Repr

/-- `Principal`; the order of the table's rows is the order its map is ranged over. -/
structure Principal where
  roles : List Role := []
  repositories : Table String RepositoryPermission := .empty

def Principal.has (p : Principal) (role : Role) : Bool := p.roles.contains role

inductive Action where
  | read | run | trustedRun | approve | cancel | rerun | artifactRead
  | runnerManage | policyManage | admin
  deriving DecidableEq, Repr

/-! ## Repository entries -/

/-- `RepoIdentity.ID`, of a host and a full name. -/
def repoIdentityID (host fullName : String) : String :=
  if host = "" || fullName = "" then "" else host ++ "/" ++ foldRepoFullName fullName

/-- The entries of a repository map, by what their keys address. -/
structure GrantIndex (α : Type) where
  identities : Recorded String α := {}
  aliases : Recorded String α := {}
  /-- `identityFull`: the identities of each full name. -/
  identityFull : List (String × String) := []

/-- One round of the loop over the entries; an unusable key matches nothing. -/
def GrantIndex.add {α : Type} (equal : α → α → Bool) (index : GrantIndex α)
    (entry : Sigma fun _ : String => α) : GrantIndex α :=
  match parseStoredRepoID entry.1 with
  | none => index
  | some (.alias fullName) =>
    { index with aliases := index.aliases.record equal fullName entry.2 }
  | some (.identity host fullName) =>
    let id := repoIdentityID host fullName
    { index with
      identities := index.identities.record equal id entry.2
      identityFull :=
        if index.identityFull.contains (fullName, id) then index.identityFull
        else index.identityFull ++ [(fullName, id)] }

/-- The entries after the loop over the whole map. -/
def grantIndex {α : Type} (equal : α → α → Bool) (entries : Table String α) : GrantIndex α :=
  entries.rows.foldl (GrantIndex.add equal) {}

def keyIdentity (key : String) : Option (String × String) :=
  match parseStoredRepoID key with
  | some (.identity host fullName) => some (host, fullName)
  | _ => none

/-- The bare name a key addresses. -/
def keyAlias (key : String) : Option String :=
  match parseStoredRepoID key with
  | some (.alias fullName) => some fullName
  | _ => none

section Index

variable {α : Type} (equal : α → α → Bool)

/-- The entries recorded under identities. -/
def identityPairs (rows : List (Sigma fun _ : String => α)) : List (String × α) :=
  rows.filterMap fun entry =>
    (keyIdentity entry.1).map fun id => (repoIdentityID id.1 id.2, entry.2)

/-- The entries recorded under bare names. -/
def aliasPairs (rows : List (Sigma fun _ : String => α)) : List (String × α) :=
  rows.filterMap fun entry => (keyAlias entry.1).map fun name => (name, entry.2)

theorem identities_foldl (rows : List (Sigma fun _ : String => α)) (index : GrantIndex α) :
    (rows.foldl (GrantIndex.add equal) index).identities =
      index.identities.recordAll equal (identityPairs rows) := by
  rw [Recorded.recordAll, identityPairs, foldl_filterMap]
  refine (foldl_hom GrantIndex.identities fun index entry => ?_).symm
  unfold keyIdentity GrantIndex.add
  rcases parseStoredRepoID entry.1 with _ | ⟨host, fullName⟩ | ⟨fullName⟩ <;> rfl

theorem aliases_foldl (rows : List (Sigma fun _ : String => α)) (index : GrantIndex α) :
    (rows.foldl (GrantIndex.add equal) index).aliases =
      index.aliases.recordAll equal (aliasPairs rows) := by
  rw [Recorded.recordAll, aliasPairs, foldl_filterMap]
  refine (foldl_hom GrantIndex.aliases fun index entry => ?_).symm
  unfold keyAlias GrantIndex.add
  rcases parseStoredRepoID entry.1 with _ | ⟨host, fullName⟩ | ⟨fullName⟩ <;> rfl

/-- The full names of the index are those of identities among the keys. -/
theorem identityFull_foldl (rows : List (Sigma fun _ : String => α)) (index : GrantIndex α)
    {id : String}
    (member : (fullName, id) ∈ (rows.foldl (GrantIndex.add equal) index).identityFull) :
    (fullName, id) ∈ index.identityFull ∨
      ∃ entry ∈ rows, ∃ host, keyIdentity entry.1 = some (host, fullName) := by
  induction rows generalizing index with
  | nil => exact .inl member
  | cons entry rows ih =>
    rcases ih _ member with before | ⟨later, there, host, shown⟩
    · unfold GrantIndex.add at before
      split at before
      · exact .inl before
      · exact .inl before
      · rename_i host name shown
        by_cases known : index.identityFull.contains (name, repoIdentityID host name) = true
        · exact .inl (by simpa only [if_pos known] using before)
        · simp only [if_neg known, mem_append, mem_singleton, Prod.mk.injEq] at before
          rcases before with old | ⟨rfl, -⟩
          · exact .inl old
          · exact .inr ⟨entry, mem_cons_self, host, by simp [keyIdentity, shown]⟩
    · exact .inr ⟨later, mem_cons_of_mem _ there, host, shown⟩

end Index

/-- The loop of `resolveAliasToIdentity`: the entry matched so far and whether another
one differed from it. -/
def resolveIdentities {α : Type} (equal : α → α → Bool) (identities : Recorded String α) :
    List String → Option α → Bool → Verdict α
  | [], match?, ambiguous =>
    if ambiguous then .conflict
    else match match? with
      | some perm => .found perm
      | none => .noEntry
  | id :: rest, match?, ambiguous =>
    match identities.resolve id with
    | .conflict => .conflict
    | .noEntry => resolveIdentities equal identities rest match? ambiguous
    | .found perm =>
      match match? with
      | none => resolveIdentities equal identities rest (some perm) ambiguous
      | some first =>
        resolveIdentities equal identities rest (some first) (ambiguous || !equal perm first)

/-- `resolveAliasToIdentity`: among the canonical entries of a bare name. -/
def GrantIndex.resolveAliasToIdentity {α : Type} (equal : α → α → Bool) (index : GrantIndex α)
    (fullName : String) : Verdict α :=
  let ids := index.identityFull.filterMap fun entry =>
    if entry.1 = fullName then some entry.2 else none
  resolveIdentities equal index.identities ids none false

def resolveRepoGrantEntries {α : Type} (entries : Table String α) (equal : α → α → Bool)
    (grant : RepoGrant) (legacyBareFallback : Bool) : Verdict α :=
  let index := grantIndex equal entries
  match grant with
  | .alias fullName =>
    match index.aliases.resolve fullName with
    | .noEntry =>
      if !legacyBareFallback then .noEntry else index.resolveAliasToIdentity equal fullName
    | decided => decided
  | .identity host fullName =>
    match index.identities.resolve (repoIdentityID host fullName) with
    | .noEntry => index.aliases.resolve fullName
    | decided => decided

def Principal.repoEntryGrantMode (p : Principal) (grant : RepoGrant) (legacyBareFallback : Bool) :
    Verdict RepositoryPermission :=
  resolveRepoGrantEntries p.repositories (fun a b => decide (a = b)) grant legacyBareFallback

/-! ## Decisions -/

def authorizeGlobalRoles (p : Principal) (action : Action) (trusted : Bool) : Bool :=
  match action with
  | .read => p.has .read
  | .run => if trusted then p.has .trustedRun else p.has .run
  | .trustedRun => p.has .trustedRun
  | .approve => p.has .approve
  | .cancel => p.has .cancel
  | .rerun => p.has .rerun
  | .artifactRead => p.has .artifactRead
  | .runnerManage => p.has .runnerManage
  | .policyManage => p.has .policyManage
  | .admin => false

/-- What an entry says of an action; the global actions are not its business. -/
def RepositoryPermission.decides (perm : RepositoryPermission) (action : Action)
    (trusted : Bool) : Option Bool :=
  match action with
  | .read => some perm.read
  | .run => some (if trusted then perm.trustedRun else perm.run)
  | .trustedRun => some perm.trustedRun
  | .approve => some perm.approve
  | .cancel => some perm.cancel
  | .rerun => some perm.rerun
  | .artifactRead => some perm.artifactRead
  | .runnerManage | .policyManage | .admin => none

def authorizeGrantMode (p : Principal) (action : Action) (grant : RepoGrant)
    (trusted legacyBareFallback : Bool) : Bool :=
  if p.has .admin then true
  else match p.repoEntryGrantMode grant legacyBareFallback with
    | .conflict => false
    | .found perm => (perm.decides action trusted).getD (authorizeGlobalRoles p action trusted)
    | .noEntry => authorizeGlobalRoles p action trusted

def authorize (p : Principal) (action : Action) (repo : String) (trusted : Bool) : Bool :=
  if p.has .admin then true
  else match parseStoredRepoID repo with
    -- only the empty repository is decided by the global roles
    | none => if trimSpace repo = "" then authorizeGlobalRoles p action trusted else false
    | some grant => authorizeGrantMode p action grant trusted true

def authorizeIdentity (p : Principal) (action : Action) (host fullName : String)
    (trusted : Bool) : Bool :=
  authorizeGrantMode p action (.identity host fullName) trusted false

def canReadRepo (p : Principal) (repo : String) : Bool := authorize p .read repo false

/-! ## What the entries of a principal amount to -/

namespace Principal

def identityVerdict (p : Principal) (id : String) : Verdict RepositoryPermission :=
  verdict (valuesAt (identityPairs p.repositories.rows) id)

/-- The entries of a principal for one bare name. -/
def aliasVerdict (p : Principal) (fullName : String) : Verdict RepositoryPermission :=
  verdict (valuesAt (aliasPairs p.repositories.rows) fullName)

theorem holds_identities (p : Principal) (id : String) :
    (grantIndex (fun a b => decide (a = b)) p.repositories).identities.Holds id
      (valuesAt (identityPairs p.repositories.rows) id) := by
  rw [grantIndex, identities_foldl]
  exact Recorded.holds_recordAll _ id

theorem holds_aliases (p : Principal) (fullName : String) :
    (grantIndex (fun a b => decide (a = b)) p.repositories).aliases.Holds fullName
      (valuesAt (aliasPairs p.repositories.rows) fullName) := by
  rw [grantIndex, aliases_foldl]
  exact Recorded.holds_recordAll _ fullName

/-- A canonical identity is decided by its own entries, then by those of its bare name. -/
theorem repoEntryGrantMode_identity (p : Principal) (host fullName : String) (legacy : Bool) :
    p.repoEntryGrantMode (.identity host fullName) legacy =
      match p.identityVerdict (repoIdentityID host fullName) with
      | .noEntry => p.aliasVerdict fullName
      | decided => decided := by
  unfold repoEntryGrantMode resolveRepoGrantEntries
  dsimp only
  rw [(p.holds_identities _).resolve_eq, (p.holds_aliases _).resolve_eq]
  unfold identityVerdict aliasVerdict
  cases verdict (valuesAt (identityPairs p.repositories.rows)
    (repoIdentityID host fullName)) <;> rfl

/-- No identity among the keys has a full name without a slash. -/
theorem resolveAliasToIdentity_none {α : Type} (equal : α → α → Bool) (entries : Table String α)
    (absent : ∀ entry ∈ entries.rows, ∀ host, keyIdentity entry.1 ≠ some (host, fullName)) :
    (grantIndex equal entries).resolveAliasToIdentity equal fullName = .noEntry := by
  unfold GrantIndex.resolveAliasToIdentity
  have nothing : (grantIndex equal entries).identityFull.filterMap (fun entry =>
      if entry.1 = fullName then some entry.2 else none) = [] := by
    rw [filterMap_eq_nil_iff]
    intro entry member
    rw [if_neg]
    rintro rfl
    rcases identityFull_foldl equal entries.rows {} member
      with before | ⟨row, there, host, shown⟩
    · cases before
    · exact absent row there host shown
  rw [nothing]
  rfl

/-- A bare name that no canonical entry shares is decided by its own entries. -/
theorem repoEntryGrantMode_alias (p : Principal) (fullName : String) (legacy : Bool)
    (absent : ∀ entry ∈ p.repositories.rows, ∀ host,
      keyIdentity entry.1 ≠ some (host, fullName)) :
    p.repoEntryGrantMode (.alias fullName) legacy = p.aliasVerdict fullName := by
  unfold repoEntryGrantMode resolveRepoGrantEntries
  dsimp only
  rw [(p.holds_aliases _).resolve_eq, resolveAliasToIdentity_none _ _ absent]
  unfold aliasVerdict
  cases verdict (valuesAt (aliasPairs p.repositories.rows) fullName) with
  | noEntry => cases legacy <;> rfl
  | found perm => rfl
  | conflict => rfl

/-- The same principal, with its map ranged over in another order. -/
structure Same (p q : Principal) : Prop where
  roles : p.roles = q.roles
  repositories : ∀ key, p.repositories.get? key = q.repositories.get? key

theorem Same.identityVerdict_eq {p q : Principal} (same : p.Same q) (id : String) :
    p.identityVerdict id = q.identityVerdict id := by
  have rows := Table.rows_perm same.repositories
  exact verdict_perm ((rows.filterMap _).filterMap _)

theorem Same.aliasVerdict_eq {p q : Principal} (same : p.Same q) (fullName : String) :
    p.aliasVerdict fullName = q.aliasVerdict fullName := by
  have rows := Table.rows_perm same.repositories
  exact verdict_perm ((rows.filterMap _).filterMap _)

end Principal

theorem slash_of_keyIdentity
    (shown : keyIdentity key = some (host, fullName)) : '/' ∈ fullName.toList := by
  unfold keyIdentity at shown
  split at shown
  · rename_i host' fullName' parsed
    obtain ⟨rfl, rfl⟩ := Prod.mk.inj (Option.some.inj shown)
    rcases parseStoredRepoID_some parsed with ⟨-, tagged⟩ | ⟨-, tagged⟩ | ⟨-, -, read⟩
    · obtain ⟨-, h, f, same, slash⟩ := parseRepoIdentity_some tagged
      obtain ⟨rfl, rfl⟩ := RepoGrant.identity.inj same
      exact slash
    · obtain ⟨-, f, same, -⟩ := parseRepoAlias_some tagged
      cases same
    · cases read with
      | canonical first rest shape nested =>
        rw [foldRepoFullName, toList_lower]
        exact (mem_map_lowerChar (by decide)).mpr nested
  · cases shown

theorem trimmed_of_keyAlias (shown : keyAlias key = some fullName) :
    fullName ≠ "" ∧ trimSpace fullName = fullName := by
  unfold keyAlias at shown
  split at shown
  · rename_i fullName' parsed
    obtain rfl := Option.some.inj shown
    rcases parseStoredRepoID_some parsed with ⟨-, tagged⟩ | ⟨-, tagged⟩ | ⟨-, valid, read⟩
    · obtain ⟨-, h, f, same, -⟩ := parseRepoIdentity_some tagged
      cases same
    · obtain ⟨-, f, same, -, valid⟩ := parseRepoAlias_some tagged
      obtain rfl := RepoGrant.alias.inj same
      exact validFullName_trimmed valid
    · obtain ⟨named, trimmed⟩ := validFullName_trimmed valid
      cases read with
      | bare =>
        refine ⟨fun empty => named ?_, by rw [foldRepoFullName, trimSpace_lower, trimmed]⟩
        rw [foldRepoFullName, ← String.toList_inj, toList_lower] at empty
        exact String.toList_inj.mp (map_eq_nil_iff.mp empty)
  · cases shown

theorem Principal.aliasVerdict_blank (p : Principal)
    (blank : trimSpace fullName = "") : p.aliasVerdict fullName = .noEntry := by
  rw [Principal.aliasVerdict, verdict_noEntry_iff, valuesAt, filterMap_eq_nil_iff]
  intro pair member
  rw [if_neg]
  rintro rfl
  obtain ⟨entry, -, shown⟩ := mem_filterMap.mp member
  obtain ⟨name, alias', rfl⟩ := Option.map_eq_some_iff.mp shown
  obtain ⟨named, trimmed⟩ := trimmed_of_keyAlias alias'
  exact named (trimmed.symm.trans blank)

end KiwiCI.Auth
