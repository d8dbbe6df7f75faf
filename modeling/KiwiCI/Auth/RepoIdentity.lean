import KiwiCI.Lib.Base64
import KiwiCI.Lib.Text

/-!
Forge hosts and repository identities: `internal/auth/host.go` and
`internal/auth/repoidentity.go`.

`canonicalHost` brings the spellings of one forge host onto one form, and
`canonicalRepoID` renders `host/full-name` with the path folded to lower case.
`parseStoredRepoID` reads a stored identity back by position: three or more
path segments are a host and a full name, fewer are a bare alias, and the
`r1:`/`a1:` spellings are explicit.
-/

namespace KiwiCI.Auth

open Text Option

/-! ## Hosts -/

def isDefaultHostPort (scheme port : String) : Bool :=
  match scheme with
  | "https" => port = "443"
  | "http" => port = "80"
  | "ssh" => port = "22"
  | _ => port = "443" || port = "80" || port = "22"

/-- `splitHostPort`: a bracketed literal is one host, and only a numeric tail
behind a single colon is a port. -/
def splitHostPort (hostPort : String) : String × String :=
  if hasPrefix "[" hostPort then
    match cut "]" hostPort with
    | some (before, after) =>
      (trimPrefix "[" before, if hasPrefix ":" after then trimPrefix ":" after else "")
    | none => (hostPort, "")
  else
    match cutLast ':' hostPort with
    | some (host, port) =>
      if host ≠ "" && !contains ":" host && isInteger port then (host, port) else (hostPort, "")
    | none => (hostPort, "")

/-- `canonHostPort`: lower case, one trailing dot and the default port dropped. -/
def canonHostPort (scheme hostPort : String) : String :=
  let trimmed := trimSpace hostPort
  if trimmed = "" then ""
  else
    let (host, port) := splitHostPort trimmed
    let host := lower (trimSuffix "." host)
    if host = "" then ""
    else if port ≠ "" && !isDefaultHostPort scheme port then host ++ ":" ++ port
    else host

/-- Where the path or query of a reference begins. -/
def isHostEnd (c : Char) : Bool := c == '/' || c == '?' || c == '#'

/-- `scpHostColon`: around the colon that separates an scp-like host from its
path; the colons inside a bracketed literal do not count. -/
def scpHostColon (s : String) : Option (String × String) :=
  if hasPrefix "[" s then
    match cut "]" s with
    | none => none
    | some (literal, after) =>
      (cut ":" after).map fun (between, tail) => (literal ++ "]" ++ between, tail)
  else cut ":" s

def canonicalHost (raw : String) : String :=
  let s := trimSpace raw
  if s = "" then ""
  else
    match cut "://" s with
    | some (scheme, rest) =>
      let authority := beforeAny isHostEnd rest
      let host := match cutLast '@' authority with
        | some (_, host) => host
        | none => authority
      canonHostPort (lower (trimSpace scheme)) host
    | none =>
      match cutLast '@' s with
      | some (_, rest) =>
        match scpHostColon rest with
        | some (host, tail) =>
          if tail = "" || contains "/" tail then canonHostPort "ssh" host
          else canonHostPort "" rest
        | none => canonHostPort "" rest
      | none =>
        let s := beforeAny isHostEnd s
        if hasPrefix "[" s then canonHostPort "" s
        else
          match cut ":" s with
          | some (host, tail) =>
            -- the legacy `host:path` spelling: one colon and no numeric port
            if host ≠ "" && countChar ':' s = 1 && !isInteger tail then canonHostPort "" host
            else canonHostPort "" s
          | none => canonHostPort "" s

/-! ## Canonical identities -/

def foldRepoFullName (s : String) : String := lower s

def splitFirstPathSegment (s : String) : Option (String × String) :=
  match cut "/" s with
  | some (first, rest) => if first = "" then none else some (first, rest)
  | none => none

/-- `canonicalRepoParts`: a full name that repeats the known host in front of an
owner and a name is reduced to the rest. -/
def canonicalRepoParts (host fullName : String) : String × String :=
  let full := foldRepoFullName (trimSpace fullName)
  let canonHost := canonicalHost host
  if full = "" then (canonHost, "")
  else if canonHost = "" then (canonHost, full)
  else
    match splitFirstPathSegment full with
    | some (first, rest) =>
      if canonicalHost first = canonHost && contains "/" rest then (canonHost, rest)
      else (canonHost, full)
    | none => (canonHost, full)

def canonicalRepoID (forgeHost fullName : String) : String :=
  let (host, full) := canonicalRepoParts forgeHost fullName
  if full = "" then ""
  else if host = "" then full
  else host ++ "/" ++ full

/-! ## Stored identities -/

/-- `RepoGrant`: a forge-scoped identity or a bare alias. -/
inductive RepoGrant where
  | identity (host fullName : String)
  | alias (fullName : String)
  deriving DecidableEq, Repr

def validCanonicalHost (host : String) : Bool :=
  host ≠ "" && !containsAny (" \t\r\n/?#@".toList.contains ·) host &&
    (!hasPrefix "[" host ||
      match cut "]" host with
      | some (before, after) => before ≠ "[" && !containsAny (" \t\r\n".toList.contains ·) after
      | none => false)

/-- `validateFullName` accepts. -/
def validFullName (full : String) (requireSlash : Bool) : Bool :=
  full ≠ "" && trimSpace full = full && !containsAny (" \t\r\n\x00".toList.contains ·) full &&
    !hasPrefix "/" full && !hasSuffix "/" full && !contains "//" full &&
    (!requireSlash || contains "/" full)

/-- The value of a base64url digit. -/
def base64Value (c : Char) : Option Nat :=
  if 'A' ≤ c ∧ c ≤ 'Z' then some (c.toNat - 'A'.toNat)
  else if 'a' ≤ c ∧ c ≤ 'z' then some (c.toNat - 'a'.toNat + 26)
  else if '0' ≤ c ∧ c ≤ '9' then some (c.toNat - '0'.toNat + 52)
  else if c = '-' then some 62
  else if c = '_' then some 63
  else none

/-- The bytes of groups of four six-bit digits; a last group of one is malformed. -/
def base64Bytes : List Nat → Option (List Nat)
  | [] => some []
  | [_] => none
  | [a, b] => some [(a * 4 + b / 16) % 256]
  | [a, b, c] => some [(a * 4 + b / 16) % 256, (b * 16 + c / 4) % 256]
  | a :: b :: c :: d :: rest =>
    (base64Bytes rest).map fun bytes =>
      (a * 4 + b / 16) % 256 :: (b * 16 + c / 4) % 256 :: (c * 64 + d) % 256 :: bytes

/-- `base64.RawURLEncoding.DecodeString`; line breaks are skipped.  Bytes that are no text
are refused here, where the code goes on with a string no repository is named by. -/
def base64Decode (s : String) : Option String := do
  let digits ← (s.toList.filter fun c => c ≠ '\r' && c ≠ '\n').mapM base64Value
  let bytes ← base64Bytes digits
  Base64.decodeUtf8 (bytes.map UInt8.ofNat)

/-- `ParseRepoIdentity`, behind the `r1:` tag. -/
def parseRepoIdentity (body : String) : Option RepoGrant :=
  match split ':' body with
  | [hostPart, namePart] =>
    if hostPart = "" || namePart = "" || contains "=" body then none
    else do
      let host ← base64Decode hostPart
      let name ← base64Decode namePart
      let full := foldRepoFullName name
      if validCanonicalHost (canonicalHost host) && validFullName full true then
        some (.identity (canonicalHost host) full)
      else none
  | _ => none

/-- `ParseRepoAlias`, behind the `a1:` tag. -/
def parseRepoAlias (body : String) : Option RepoGrant :=
  if body = "" || contains "=" body then none
  else do
    let full := foldRepoFullName (← base64Decode body)
    if validFullName full false then some (.alias full) else none

/-- `ParseStoredRepoID`; `none` stands for the parse error. -/
def parseStoredRepoID (s : String) : Option RepoGrant :=
  if s = "" then none
  else if hasPrefix "r1:" s then parseRepoIdentity (trimPrefix "r1:" s)
  else if hasPrefix "a1:" s then parseRepoAlias (trimPrefix "a1:" s)
  else if !validFullName s false then none
  else
    match splitFirstPathSegment s with
    | none => some (.alias (foldRepoFullName s))
    | some (first, rest) =>
      if !contains "/" rest then some (.alias (foldRepoFullName s))
      else if validCanonicalHost (canonicalHost first) && validFullName rest true then
        some (.identity (canonicalHost first) (foldRepoFullName rest))
      else none

/-- The `r1:`/`a1:` spellings. -/
def isTagged (s : String) : Bool := hasPrefix "r1:" s || hasPrefix "a1:" s

/-! ## Base64 -/

section Encoded

open List Base64

theorem base64Value_digit : ∀ n < 64, base64Value (Base64.digit n) = some n := by decide

/-- The digits of an encoding group back into its bytes. -/
theorem base64Bytes_encode (bytes : List UInt8) :
    ∃ digits, (Base64.encode bytes).mapM base64Value = some digits ∧
      base64Bytes digits = some (bytes.map UInt8.toNat) := by
  induction bytes using encode.induct with
  | case1 => exact ⟨[], rfl, rfl⟩
  | case2 a =>
    have := byte_lt a
    refine ⟨[a.toNat / 4, a.toNat % 4 * 16], ?_, ?_⟩
    · simp [encode, base64Value_digit (a.toNat / 4) (by omega),
        base64Value_digit (a.toNat % 4 * 16) (by omega)]
    · simp only [base64Bytes, map_cons, map_nil, Option.some.injEq, cons.injEq,
        and_true]
      omega
  | case3 a b =>
    have := byte_lt a
    have := byte_lt b
    refine ⟨[a.toNat / 4, a.toNat % 4 * 16 + b.toNat / 16, b.toNat % 16 * 4], ?_, ?_⟩
    · simp [encode, base64Value_digit (a.toNat / 4) (by omega),
        base64Value_digit (a.toNat % 4 * 16 + b.toNat / 16) (by omega),
        base64Value_digit (b.toNat % 16 * 4) (by omega)]
    · simp only [base64Bytes, map_cons, map_nil, Option.some.injEq, cons.injEq,
        and_true]
      omega
  | case4 a b c rest ih =>
    have := byte_lt a
    have := byte_lt b
    have := byte_lt c
    obtain ⟨digits, read, grouped⟩ := ih
    refine ⟨a.toNat / 4 :: (a.toNat % 4 * 16 + b.toNat / 16) ::
      (b.toNat % 16 * 4 + c.toNat / 64) :: c.toNat % 64 :: digits, ?_, ?_⟩
    · simp [encode, base64Value_digit (a.toNat / 4) (by omega),
        base64Value_digit (a.toNat % 4 * 16 + b.toNat / 16) (by omega),
        base64Value_digit (b.toNat % 16 * 4 + c.toNat / 64) (by omega),
        base64Value_digit (c.toNat % 64) (by omega), read]
    · simp only [base64Bytes, grouped, Option.map_some, map_cons, Option.some.injEq,
        cons.injEq, and_true]
      omega

/-- What can be decoded is written in one way. -/
theorem encode_injective : Function.Injective encode := by
  intro xs ys same
  obtain ⟨digits, read, grouped⟩ := base64Bytes_encode xs
  obtain ⟨digits', read', grouped'⟩ := base64Bytes_encode ys
  rw [same, read'] at read
  cases read
  rw [grouped] at grouped'
  exact map_injective_iff.mpr (fun _ _ => UInt8.toNat_inj.mp) (Option.some.inj grouped')

end Encoded

/-! ## What a stored identity reads as -/

theorem validFullName_trimmed
    (valid : validFullName full requireSlash = true) : full ≠ "" ∧ trimSpace full = full := by
  simp only [validFullName, Bool.and_eq_true, decide_eq_true_eq] at valid
  exact ⟨valid.1.1.1.1.1.1, valid.1.1.1.1.1.2⟩

theorem validFullName_hosted (named : host ≠ "")
    (plain : ∀ c ∈ host.toList, c ≠ '/' ∧ " \t\r\n\x00".toList.contains c = false)
    (front : ∀ c ∈ host.toList.head?, isSpace c = false)
    (valid : validFullName name false = true) :
    validFullName (host ++ "/" ++ name) false = true := by
  simp only [validFullName, Bool.and_eq_true, decide_eq_true_eq, Bool.not_eq_true', Bool.not_false,
    Bool.true_or, and_true] at valid ⊢
  obtain ⟨⟨⟨⟨⟨some, trimmed⟩, clean⟩, opens⟩, closes⟩, doubled⟩ := valid
  have some : name.toList ≠ [] := fun empty => some (String.toList_inj.mp empty)
  have chars : (host ++ "/" ++ name).toList = host.toList ++ '/' :: name.toList := by simp
  have noSlash : '/' ∉ host.toList := fun member => (plain _ member).1 rfl
  obtain ⟨first, rest, shape⟩ :=
    List.exists_cons_of_ne_nil (fun empty => named (String.toList_inj.mp empty) : host.toList ≠ [])
  refine ⟨⟨⟨⟨⟨?_, ?_⟩, ?_⟩, ?_⟩, ?_⟩, ?_⟩
  · intro empty
    rw [empty, shape] at chars
    cases chars
  · rw [← String.toList_inj, trimSpace, onList, String.toList_ofList, trimBy_eq_self] at trimmed ⊢
    rw [chars]
    refine ⟨fun c head => front c ?_, fun c last => trimmed.2 c ?_⟩
    · rw [shape] at head ⊢
      exact head
    · rwa [List.append_cons, List.getLast?_append_of_ne_nil _ some] at last
  · rw [containsAny, chars, List.any_append, List.any_cons, Bool.or_eq_false_iff,
      Bool.or_eq_false_iff, List.any_eq_false]
    exact ⟨fun c member => by simp only [(plain c member).2, Bool.false_eq_true,
      not_false_eq_true], by decide, clean⟩
  · have other : first ≠ '/' := fun same => noSlash (by simp [shape, same])
    simp [hasPrefix, shape, List.isPrefixOf, other.symm]
  · rw [hasSuffix, ← Bool.not_eq_true, List.isSuffixOf_iff_suffix] at closes ⊢
    intro ends
    rw [chars, List.append_cons] at ends
    exact closes (List.suffix_of_suffix_length_le ends (List.suffix_append _ _)
      (List.length_pos_iff.mpr some))
  · have absent : cutList "//".toList name.toList = none := by simpa [contains] using doubled
    rw [contains, chars, isSome_eq_false_iff, isNone_iff_eq_none]
    exact cutList_double_none noSlash opens absent

theorem slash_ne_base64 (digit : base64Value c = some n) : c ≠ '/' := by
  rintro rfl
  rw [show base64Value '/' = none by decide] at digit
  cases digit

theorem mapM_base64Value {s : List Char} {digits : List Nat}
    (read : s.mapM base64Value = some digits) :
    digits.length = s.length ∧ ∀ c ∈ s, ∃ n, base64Value c = some n := by
  induction s generalizing digits with
  | nil =>
    obtain rfl := some.inj read
    simp
  | cons c s ih =>
    rw [List.mapM_cons] at read
    obtain ⟨n, first, later⟩ := bind_eq_some_iff.mp read
    obtain ⟨rest, tail, shape⟩ := bind_eq_some_iff.mp later
    obtain rfl := some.inj shape
    obtain ⟨length, each⟩ := ih tail
    exact ⟨by simp [length], List.forall_mem_cons.mpr ⟨⟨n, first⟩, each⟩⟩

/-- An encoding is made of digits. -/
theorem digit_of_encode (member : c ∈ Base64.encode bytes) :
    base64Value c = some (Base64.value c) := by
  obtain ⟨digits, read, -⟩ := base64Bytes_encode bytes
  obtain ⟨n, digit⟩ := (mapM_base64Value read).2 c member
  unfold Base64.value
  unfold base64Value at digit ⊢
  split_ifs at digit ⊢ <;> simp_all [Char.le_def, UInt32.le_iff_toNat_le]
  · omega
  · omega

theorem slash_of_base64Decode {s name : String} (decoded : base64Decode s = some name) :
    '/' ∉ s.toList := by
  intro member
  unfold base64Decode at decoded
  obtain ⟨digits, read, -⟩ := bind_eq_some_iff.mp decoded
  have kept : '/' ∈ s.toList.filter fun c => c ≠ '\r' && c ≠ '\n' :=
    List.mem_filter.mpr ⟨member, by decide⟩
  obtain ⟨n, digit⟩ := (mapM_base64Value read).2 '/' kept
  exact slash_ne_base64 digit rfl

theorem length_base64Bytes (read : base64Bytes digits = some bytes) :
    bytes.length ≤ digits.length := by
  induction digits using base64Bytes.induct generalizing bytes with
  | case1 => simpa [base64Bytes] using congrArg (Option.map List.length) read.symm
  | case2 a => simp [base64Bytes] at read
  | case3 a b =>
    obtain rfl := some.inj read
    simp
  | case4 a b c =>
    obtain rfl := some.inj read
    simp
  | case5 a b c d rest ih =>
    obtain ⟨tail, there, rfl⟩ := map_eq_some_iff.mp read
    have bound := ih there
    simp only [List.length_cons]
    omega

/-- Decoded text is no longer than what it was decoded from. -/
theorem length_base64Decode {s name : String} (decoded : base64Decode s = some name) :
    name.toList.length ≤ s.toList.length := by
  unfold base64Decode at decoded
  obtain ⟨digits, read, later⟩ := bind_eq_some_iff.mp decoded
  obtain ⟨bytes, grouped, text⟩ := bind_eq_some_iff.mp later
  have form := congrArg List.length (Base64.decodeUtf8_iff.mp text)
  rw [List.length_map] at form
  calc name.toList.length ≤ (Sha256.utf8 name).length := Base64.length_le_utf8 name
    _ = bytes.length := form.symm
    _ ≤ digits.length := length_base64Bytes grouped
    _ = (s.toList.filter fun c => c ≠ '\r' && c ≠ '\n').length := (mapM_base64Value read).1
    _ ≤ s.toList.length := List.length_filter_le _ _

/-- A tagged identity has a path and is written without a slash. -/
theorem parseRepoIdentity_some (parsed : parseRepoIdentity body = some grant) :
    '/' ∉ body.toList ∧
      ∃ host fullName, grant = .identity host fullName ∧ '/' ∈ fullName.toList := by
  unfold parseRepoIdentity at parsed
  split at parsed
  · rename_i hostPart namePart parts
    split at parsed
    · cases parsed
    obtain ⟨host, decodedHost, later⟩ := bind_eq_some_iff.mp parsed
    obtain ⟨name, decodedName, shape⟩ := bind_eq_some_iff.mp later
    constructor
    · intro member
      have apart : '/' ≠ ':' := by decide
      obtain ⟨piece, there, inside⟩ := mem_split member apart
      rw [parts] at there
      simp only [List.mem_cons, List.not_mem_nil, or_false] at there
      rcases there with rfl | rfl
      · exact slash_of_base64Decode decodedHost inside
      · exact slash_of_base64Decode decodedName inside
    · dsimp only at shape
      split at shape
      · rename_i accepted
        obtain rfl := some.inj shape
        obtain ⟨-, path⟩ := Bool.and_eq_true_iff.mp accepted
        refine ⟨_, _, rfl, ?_⟩
        simp only [validFullName, Bool.and_eq_true] at path
        exact (contains_char rfl).mp (by simpa using path.2)
      · cases shape
  · cases parsed

/-- A tagged alias names less than it is long, and is written without a slash. -/
theorem parseRepoAlias_some (parsed : parseRepoAlias body = some grant) :
    '/' ∉ body.toList ∧
      ∃ fullName, grant = .alias fullName ∧ fullName.toList.length ≤ body.toList.length ∧
        validFullName fullName false = true := by
  unfold parseRepoAlias at parsed
  split at parsed
  · cases parsed
  obtain ⟨name, decoded, shape⟩ := bind_eq_some_iff.mp parsed
  refine ⟨slash_of_base64Decode decoded, ?_⟩
  dsimp only at shape
  split at shape
  · rename_i valid
    obtain rfl := some.inj shape
    refine ⟨_, rfl, ?_, valid⟩
    rw [foldRepoFullName, toList_lower, List.length_map]
    exact length_base64Decode decoded
  · cases shape

/-- What is known of an untagged text that reads as a grant. -/
inductive UntaggedGrant (s : String) : RepoGrant → Prop where
  | bare (flat : ∀ first rest, cut "/" s = some (first, rest) → '/' ∉ rest.toList) :
    UntaggedGrant s (.alias (foldRepoFullName s))
  | canonical (first rest : String) (shape : cut "/" s = some (first, rest))
    (nested : '/' ∈ rest.toList) (named : first ≠ "")
    (host : validCanonicalHost (canonicalHost first) = true)
    (path : validFullName rest true = true) :
    UntaggedGrant s (.identity (canonicalHost first) (foldRepoFullName rest))

theorem parseStoredRepoID_some (parsed : parseStoredRepoID s = some grant) :
    (hasPrefix "r1:" s = true ∧ parseRepoIdentity (trimPrefix "r1:" s) = some grant) ∨
      (hasPrefix "a1:" s = true ∧ parseRepoAlias (trimPrefix "a1:" s) = some grant) ∨
      (isTagged s = false ∧ validFullName s false = true ∧ UntaggedGrant s grant) := by
  unfold parseStoredRepoID at parsed
  split at parsed
  · cases parsed
  split at parsed
  · rename_i tagged
    exact .inl ⟨tagged, parsed⟩
  split at parsed
  · rename_i tagged
    exact .inr (.inl ⟨tagged, parsed⟩)
  rename_i plain plain'
  have untagged : isTagged s = false := by
    simp [isTagged, plain, plain']
  split at parsed
  · cases parsed
  rename_i valid
  refine .inr (.inr ⟨untagged, by simpa using valid, ?_⟩)
  unfold splitFirstPathSegment at parsed
  cases shape : cut "/" s with
  | none =>
    rw [shape] at parsed
    obtain rfl := some.inj parsed
    exact .bare fun first rest found => by rw [shape] at found; cases found
  | some parts =>
    obtain ⟨first, rest⟩ := parts
    rw [shape] at parsed
    have named : first ≠ "" := by
      rintro rfl
      obtain ⟨whole, -⟩ := (cut_char_iff (c := '/') rfl).mp shape
      have opens : hasPrefix "/" s = true := by simp [hasPrefix, whole]
      simp [validFullName, opens] at valid
    simp only [if_neg named] at parsed
    by_cases nested : contains "/" rest = true
    · rw [if_neg (by simp [nested])] at parsed
      split at parsed
      · rename_i accepted
        obtain rfl := some.inj parsed
        obtain ⟨host, path⟩ := Bool.and_eq_true_iff.mp accepted
        exact .canonical first rest shape ((contains_char rfl).mp nested) named host path
      · cases parsed
    · rw [if_pos (by simpa using nested)] at parsed
      obtain rfl := some.inj parsed
      refine .bare fun first' rest' found => ?_
      rw [shape] at found
      obtain ⟨rfl, rfl⟩ := Prod.mk.inj (some.inj found)
      exact fun member => nested ((contains_char rfl).mpr member)

end KiwiCI.Auth
