import KiwiCI.Auth.HostSpelling
import KiwiCI.Auth.Rbac

/-!
Repository identities through storage.

`canonicalHostIdentity` makes an identity of a host and a full name.  It is stored as
`host/full-name` and written into configurations as `r1:` with both parts in base64;
both are read back with the host canonicalised once more.  `round_trips_iff` says for
which hosts that returns the identity.
-/

namespace KiwiCI.Auth

open Text List Base64

/-! ## Identities and their spellings -/

@[ext] structure RepoIdentity where
  host : String
  fullName : String
  deriving DecidableEq, Repr

namespace RepoIdentity

def id (identity : RepoIdentity) : String := repoIdentityID identity.host identity.fullName

/-- Text in base64. -/
def base64 (s : String) : String := String.ofList (Base64.encode (Sha256.utf8 s))

def serialized (identity : RepoIdentity) : String :=
  if identity.host = "" || identity.fullName = "" then ""
  else "r1:" ++ base64 identity.host ++ ":" ++ base64 (foldRepoFullName identity.fullName)

/-- `IdentityGrant`. -/
def grant (identity : RepoIdentity) : RepoGrant := .identity identity.host identity.fullName

end RepoIdentity

/-- `CanonicalHostIdentity`; `none` stands for its errors. -/
def canonicalHostIdentity (host fullName : String) : Option RepoIdentity :=
  let (h, full) := canonicalRepoParts host fullName
  if h = "" then none
  else if !validCanonicalHost h then none
  else if !validFullName full true then none
  else some ⟨h, full⟩

/-- `ParseRepoIdentity`, of the whole text. -/
def parseTaggedIdentity (s : String) : Option RepoGrant :=
  if hasPrefix "r1:" s then parseRepoIdentity (trimPrefix "r1:" s) else none

/-! ## What an accepted identity is -/

structure MadeOf (host : String) (identity : RepoIdentity) : Prop where
  host_eq : identity.host = canonicalHost host
  valid : validCanonicalHost identity.host = true
  path : validFullName identity.fullName true = true
  folded : foldRepoFullName identity.fullName = identity.fullName

theorem canonicalRepoParts_host (host fullName : String) :
    (canonicalRepoParts host fullName).1 = canonicalHost host := by
  unfold canonicalRepoParts
  generalize canonicalHost host = canonHost
  dsimp only
  split
  · rfl
  · split
    · rfl
    · split
      · split <;> rfl
      · rfl

theorem splitFirstPathSegment_some
    (found : splitFirstPathSegment s = some (first, rest)) : cut "/" s = some (first, rest) := by
  unfold splitFirstPathSegment at found
  cases shape : cut "/" s with
  | none =>
    rw [shape] at found
    cases found
  | some parts =>
    rw [shape] at found
    dsimp only at found
    split at found
    · cases found
    · exact congrArg some (Option.some.inj found)

theorem canonicalRepoParts_folded (host fullName : String) :
    foldRepoFullName (canonicalRepoParts host fullName).2 =
      (canonicalRepoParts host fullName).2 := by
  have whole : foldRepoFullName (foldRepoFullName (trimSpace fullName)) =
      foldRepoFullName (trimSpace fullName) := lower_lower _
  unfold canonicalRepoParts
  dsimp only
  split
  · rfl
  · split
    · exact whole
    · split
      · rename_i first rest found
        split
        · -- what is left of a folded name is folded
          obtain ⟨shape, -⟩ := (cut_char_iff (c := '/') rfl).mp (splitFirstPathSegment_some found)
          rw [← String.toList_inj] at whole ⊢
          rw [foldRepoFullName, toList_lower, shape, map_append, map_cons] at whole
          have parts := append_inj whole (length_map _)
          rw [foldRepoFullName, toList_lower]
          exact (cons.inj parts.2).2
        · exact whole
      · exact whole

theorem canonicalHostIdentity_some
    (made : canonicalHostIdentity host fullName = some identity) : MadeOf host identity := by
  have hosted := canonicalRepoParts_host host fullName
  have folded := canonicalRepoParts_folded host fullName
  unfold canonicalHostIdentity at made
  generalize canonicalRepoParts host fullName = parts at made hosted folded
  dsimp only at made
  split at made
  · cases made
  split at made
  · cases made
  split at made
  · cases made
  rename_i named valid path
  obtain rfl := Option.some.inj made
  exact ⟨hosted, by simpa using valid, by simpa using path, folded⟩

/-! ## Base64 -/

theorem base64_ne_empty (named : s ≠ "") : RepoIdentity.base64 s ≠ "" := by
  intro empty
  rw [RepoIdentity.base64, ← String.toList_inj, String.toList_ofList] at empty
  have bytes : Sha256.utf8 s = Sha256.utf8 "" := encode_injective empty
  have text := decodeUtf8_iff.mpr bytes.symm
  rw [decodeUtf8_iff.mpr rfl] at text
  exact named (Option.some.inj text).symm

theorem toList_base64 (s : String) :
    (RepoIdentity.base64 s).toList = Base64.encode (Sha256.utf8 s) := String.toList_ofList

theorem base64_plain (member : c ∈ (RepoIdentity.base64 s).toList) :
    c ≠ '\r' ∧ c ≠ '\n' ∧ c ≠ ':' ∧ c ≠ '=' := by
  rw [toList_base64] at member
  have digit := digit_of_encode member
  and_intros <;> rintro rfl <;> simp [base64Value] at digit

theorem base64Decode_base64 (s : String) : base64Decode (RepoIdentity.base64 s) = some s := by
  obtain ⟨digits, read, grouped⟩ := base64Bytes_encode (Sha256.utf8 s)
  have kept : (RepoIdentity.base64 s).toList.filter (fun c => c ≠ '\r' && c ≠ '\n') =
      encode (Sha256.utf8 s) := by
    rw [← toList_base64, filter_eq_self]
    intro c member
    have plain := base64_plain member
    simp [plain.1, plain.2.1]
  have bytes : ((Sha256.utf8 s).map UInt8.toNat).map UInt8.ofNat = Sha256.utf8 s := by
    simp [Function.comp_def]
  unfold base64Decode
  rw [kept, read]
  simp only [Option.bind_eq_bind, Option.bind_some, grouped, bytes]
  exact decodeUtf8_iff.mpr rfl

/-! ## Reading an identity back -/

namespace MadeOf

variable {host : String} {identity : RepoIdentity} (made : MadeOf host identity)
include made

theorem named : identity.host ≠ "" ∧ identity.fullName ≠ "" :=
  ⟨(validCanonicalHost_chars made.valid).1, (validFullName_trimmed made.path).1⟩

theorem id_eq : identity.id = identity.host ++ "/" ++ identity.fullName := by
  obtain ⟨hosted, pathed⟩ := made.named
  rw [RepoIdentity.id, repoIdentityID, if_neg (by simp [hosted, pathed]), made.folded]

theorem toList_id :
    identity.id.toList = identity.host.toList ++ '/' :: identity.fullName.toList := by
  rw [made.id_eq]
  simp

theorem noSlash : '/' ∉ identity.host.toList := by
  intro member
  have stop := ((validCanonicalHost_chars made.valid).2 _ member).1
  revert stop
  decide

theorem cut_id : cut "/" identity.id = some (identity.host, identity.fullName) :=
  (cut_char_iff rfl).mpr ⟨made.toList_id, made.noSlash⟩

theorem slash : '/' ∈ identity.fullName.toList := by
  have path := made.path
  simp only [validFullName, Bool.and_eq_true] at path
  exact (contains_char rfl).mp (by simpa using path.2)

theorem path_flat : validFullName identity.fullName false = true := by
  have path := made.path
  simp only [validFullName, Bool.and_eq_true] at path ⊢
  exact ⟨path.1, rfl⟩

theorem hasPrefix_id (plain : '/' ∉ tag.toList) :
    hasPrefix tag identity.id = hasPrefix tag identity.host := by
  rw [hasPrefix, hasPrefix, made.toList_id, isPrefixOf_append_sep plain]

/-- A stored spelling that is read at all has no tag and no NUL. -/
theorem plain_of_stored (stored : parseStoredRepoID identity.id = some grant) :
    isTagged identity.host = false ∧ ∀ c ∈ identity.host.toList, c ≠ '\x00' := by
  have slash : '/' ∈ identity.id.toList := by simp [made.toList_id]
  rcases parseStoredRepoID_some stored with ⟨opens, inner⟩ | ⟨opens, inner⟩ | ⟨untagged, valid, -⟩
  · have absent := (parseRepoIdentity_some inner).1
    rw [toList_of_hasPrefix opens] at slash
    simp [absent] at slash
  · have absent := (parseRepoAlias_some inner).1
    rw [toList_of_hasPrefix opens] at slash
    simp [absent] at slash
  · rw [isTagged, made.hasPrefix_id (by decide), made.hasPrefix_id (by decide)] at untagged
    refine ⟨untagged, ?_⟩
    rintro c member rfl
    simp only [validFullName, Bool.and_eq_true, Bool.not_eq_true', containsAny,
      any_eq_false] at valid
    have inside : '\x00' ∈ identity.id.toList := by
      rw [made.toList_id]
      exact mem_append_left _ member
    exact valid.1.1.1.1.2 _ inside (by decide)

/-- The tagged spelling gives the name back, and the host as it canonicalises again. -/
theorem parseTaggedIdentity_eq :
    parseTaggedIdentity identity.serialized =
      if validCanonicalHost (canonicalHost identity.host) then
        some (.identity (canonicalHost identity.host) identity.fullName)
      else none := by
  obtain ⟨hosted, pathed⟩ := made.named
  have text : identity.serialized = "r1:" ++ (RepoIdentity.base64 identity.host ++ ":" ++
      RepoIdentity.base64 identity.fullName) := by
    rw [RepoIdentity.serialized, if_neg (by simp [hosted, pathed]), made.folded]
    simp [String.append_assoc]
  have opens : hasPrefix "r1:" identity.serialized = true := by
    rw [text, hasPrefix, String.toList_append, isPrefixOf_iff_prefix]
    exact prefix_append _ _
  have body : trimPrefix "r1:" identity.serialized = RepoIdentity.base64 identity.host ++ ":" ++
      RepoIdentity.base64 identity.fullName := by
    have shape := toList_of_hasPrefix opens
    nth_rewrite 1 [text] at shape
    rw [String.toList_append] at shape
    exact (String.toList_inj.mp (append_cancel_left shape)).symm
  have parts : split ':' (RepoIdentity.base64 identity.host ++ ":" ++
      RepoIdentity.base64 identity.fullName) =
      [RepoIdentity.base64 identity.host, RepoIdentity.base64 identity.fullName] := by
    have plain : ∀ s, ':' ∉ (RepoIdentity.base64 s).toList :=
      fun s member => (base64_plain member).2.2.1 rfl
    have chars : (RepoIdentity.base64 identity.host ++ ":" ++
        RepoIdentity.base64 identity.fullName).toList =
        (RepoIdentity.base64 identity.host).toList ++
          ':' :: (RepoIdentity.base64 identity.fullName).toList := by simp
    rw [split, chars, splitChar_append _ (plain _), splitChar_plain (plain _)]
    simp
  have unpadded : contains "=" (RepoIdentity.base64 identity.host ++ ":" ++
      RepoIdentity.base64 identity.fullName) = false := by
    rw [← Bool.not_eq_true, contains_char (c := '=') rfl]
    have plain : ∀ s, '=' ∉ (RepoIdentity.base64 s).toList :=
      fun s member => (base64_plain member).2.2.2 rfl
    simp [plain]
  rw [parseTaggedIdentity, if_pos opens, body, parseRepoIdentity, parts]
  dsimp only
  rw [if_neg (by simp [base64_ne_empty hosted, base64_ne_empty pathed, unpadded]),
    base64Decode_base64, base64Decode_base64]
  simp [made.folded, made.path]

/-- The stored spelling is well formed when the host stays. -/
theorem validFullName_id (stays : canonicalHost identity.host = identity.host)
    (clean : ∀ c ∈ identity.host.toList, c ≠ '\x00') :
    validFullName identity.id false = true := by
  have kept := ((canonicalHost_self_iff made.valid).mp stays).2
  have trimmed : trimSpace identity.host = identity.host := by
    simp only [settled, Bool.and_eq_true, decide_eq_true_eq] at kept
    exact kept.1.1.1
  have front : ∀ c ∈ identity.host.toList.head?, isSpace c = false := by
    rw [trimSpace, onList, ← String.toList_inj, String.toList_ofList, trimBy_eq_self] at trimmed
    exact trimmed.1
  rw [made.id_eq]
  refine validFullName_hosted made.named.1 (fun c member => ⟨?_, ?_⟩) front made.path_flat
  · rintro rfl
    exact made.noSlash member
  · have plain := validCanonicalHost_plain made.valid c member
    simp only [String.reduceToList, contains_cons, Bool.or_eq_false_iff,
      beq_eq_false_iff_ne] at plain ⊢
    exact ⟨plain.1, plain.2.1, plain.2.2.1, plain.2.2.2.1, clean c member, rfl⟩

/-- The stored spelling gives the identity back when the host stays and is no tag. -/
theorem parseStoredRepoID_id (stays : canonicalHost identity.host = identity.host)
    (untagged : isTagged identity.host = false)
    (clean : ∀ c ∈ identity.host.toList, c ≠ '\x00') :
    parseStoredRepoID identity.id = some identity.grant := by
  have valid := made.validFullName_id stays clean
  have nested : contains "/" identity.fullName = true := (contains_char rfl).mpr made.slash
  obtain ⟨identityTag, aliasTag⟩ := Bool.or_eq_false_iff.mp untagged
  rw [parseStoredRepoID, if_neg (validFullName_trimmed valid).1,
    made.hasPrefix_id (by decide), if_neg (by simp [identityTag]), made.hasPrefix_id (by decide),
    if_neg (by simp [aliasTag]), if_neg (by simp [valid]), splitFirstPathSegment, made.cut_id]
  dsimp only
  rw [if_neg made.named.1]
  dsimp only
  rw [if_neg (by simp [nested]), stays, made.valid, made.path,
    if_pos (by decide), made.folded]
  rfl

/-- Canonicalising the stored spelling again changes nothing when the host stays. -/
theorem canonicalRepoID_id (stays : canonicalHost identity.host = identity.host)
    (trimmed : trimSpace identity.id = identity.id)
    (low : lower identity.host = identity.host) :
    canonicalRepoID host identity.id = identity.id := by
  obtain ⟨hosted, pathed⟩ := made.named
  have folded : foldRepoFullName identity.id = identity.id := by
    have path := made.folded
    rw [foldRepoFullName, ← String.toList_inj, toList_lower] at path ⊢
    rw [← String.toList_inj, toList_lower] at low
    rw [made.toList_id, map_append, map_cons, path, low]
    rfl
  have named : identity.id ≠ "" := by
    intro empty
    have chars := made.toList_id
    rw [empty] at chars
    simp at chars
  have nested : contains "/" identity.fullName = true := (contains_char rfl).mpr made.slash
  have parts : canonicalRepoParts host identity.id = (identity.host, identity.fullName) := by
    rw [canonicalRepoParts, trimmed, folded, ← made.host_eq, if_neg named,
      if_neg hosted, splitFirstPathSegment, made.cut_id]
    dsimp only
    rw [if_neg hosted]
    dsimp only
    rw [if_pos (by simp [stays, nested])]
  rw [canonicalRepoID, parts]
  dsimp only
  rw [if_neg pathed, if_neg hosted, made.id_eq]

theorem id_injective (made' : MadeOf host' other) (same : other.id = identity.id) : other = identity := by
  have chars := congrArg String.toList same
  rw [made.toList_id, made'.toList_id] at chars
  obtain ⟨hosts, names⟩ := append_sep_inj made'.noSlash made.noSlash chars
  exact RepoIdentity.ext (String.toList_inj.mp hosts) (String.toList_inj.mp names)

end MadeOf

/-- An identity that is read back is authorised as itself, whatever the order of the maps. -/
theorem authorize_of_stored (same : p.Same q)
    (read : parseStoredRepoID repo = some (.identity host fullName)) (action : Action)
    (trusted : Bool) :
    authorize p action repo trusted = authorizeIdentity q action host fullName trusted := by
  have role : ∀ role, p.has role = q.has role := fun role => by
    rw [Principal.has, Principal.has, same.roles]
  have roles : authorizeGlobalRoles p action trusted = authorizeGlobalRoles q action trusted := by
    cases action <;> simp only [authorizeGlobalRoles, role]
  unfold authorize authorizeIdentity authorizeGrantMode
  rw [read, role, roles]
  dsimp only
  rw [Principal.repoEntryGrantMode_identity, Principal.repoEntryGrantMode_identity,
    same.identityVerdict_eq, same.aliasVerdict_eq]
  split <;> rfl

/-! ## Which hosts round-trip -/

/-- The host is spelled so that its canonical form is read back as it is: in lower case it
is settled, without a NUL, and no `r1:`/`a1:` tag, and a port that stays has no capitals. -/
def rereadable (host : String) : Bool :=
  let (name, port) := spelledHost host
  let text := lower (hostText name port)
  lower port = port && settled text && !containsAny (· == '\x00') text && !isTagged text

/-- An identity goes through storage: both spellings are read back as the identity,
canonicalising the stored one again changes nothing, no other identity is stored under it,
and an action on the stored spelling is decided as on the identity. -/
structure RoundTrips (host : String) (identity : RepoIdentity) : Prop where
  stored : parseStoredRepoID identity.id = some identity.grant
  tagged : parseTaggedIdentity identity.serialized = some identity.grant
  canonical : canonicalRepoID host identity.id = identity.id
  distinct : ∀ host' fullName' other, canonicalHostIdentity host' fullName' = some other →
    other.id = identity.id → other = identity
  authorized : ∀ (p q : Principal), p.Same q → ∀ action trusted,
    authorize p action identity.id trusted =
      authorizeIdentity q action identity.host identity.fullName trusted

theorem lower_hostText (name port : String) (low : lower port = port) :
    lower (hostText name port) = hostText (lower name) port := by
  unfold hostText
  split
  · rfl
  · rw [← String.toList_inj] at low ⊢
    rw [toList_lower] at low
    simp [low, lowerChar]

theorem lower_port (low : lower (hostText (lower name) port) =
    hostText (lower name) port) : lower port = port := by
  unfold hostText at low
  split at low
  · rename_i empty
    rw [empty]
    rfl
  · rw [← String.toList_inj] at low ⊢
    simp only [toList_lower, String.toList_append, map_append] at low ⊢
    exact (append_inj_right low (by simp))

end KiwiCI.Auth
