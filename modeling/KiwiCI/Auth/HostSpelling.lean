import KiwiCI.Auth.RepoIdentity

/-!
Which host spellings keep their canonical form.

`canonicalHost` is applied to a host when an identity is made and once more when a
stored identity is read, then without the scheme it came with.  `settled` says which
canonical hosts the second application returns as they are, and `spelledHost` what a
raw host spells before it is lowered, so that the question can be asked of the input.
-/

namespace KiwiCI.Auth

variable {host : String}

open Text List

/-! ## What a raw host spells -/

/-- The scheme and the `host[:port]` text that `canonicalHost` takes from a raw host. -/
def hostSpelling (raw : String) : String × String :=
  let s := trimSpace raw
  match cut "://" s with
  | some (scheme, rest) =>
    let authority := beforeAny isHostEnd rest
    let host := match cutLast '@' authority with
      | some (_, host) => host
      | none => authority
    (lower (trimSpace scheme), host)
  | none =>
    match cutLast '@' s with
    | some (_, rest) =>
      match scpHostColon rest with
      | some (host, tail) => if tail = "" || contains "/" tail then ("ssh", host) else ("", rest)
      | none => ("", rest)
    | none =>
      let s := beforeAny isHostEnd s
      if hasPrefix "[" s then ("", s)
      else
        match cut ":" s with
        | some (host, tail) =>
          if host ≠ "" && countChar ':' s = 1 && !isInteger tail then ("", host) else ("", s)
        | none => ("", s)

/-- The host a raw host spells, without brackets and without one trailing dot, and the
port that stays with it. -/
def spelledHost (raw : String) : String × String :=
  let (scheme, hostPort) := hostSpelling raw
  let (host, port) := splitHostPort (trimSpace hostPort)
  (trimSuffix "." host, if port ≠ "" && !isDefaultHostPort scheme port then port else "")

def hostText (host port : String) : String := if port = "" then host else host ++ ":" ++ port

theorem canonHostPort_eq (scheme hostPort : String) :
    canonHostPort scheme hostPort =
      let (host, port) := splitHostPort (trimSpace hostPort)
      if lower (trimSuffix "." host) = "" then ""
      else hostText (lower (trimSuffix "." host))
        (if port ≠ "" && !isDefaultHostPort scheme port then port else "") := by
  unfold canonHostPort hostText
  dsimp only
  by_cases empty : trimSpace hostPort = ""
  · rw [if_pos empty, empty, if_pos (by decide)]
  · rw [if_neg empty]
    by_cases none : lower (trimSuffix "." (splitHostPort (trimSpace hostPort)).1) = ""
    · rw [if_pos none, if_pos none]
    · rw [if_neg none, if_neg none]
      by_cases kept : ((splitHostPort (trimSpace hostPort)).2 ≠ "" &&
          !isDefaultHostPort scheme (splitHostPort (trimSpace hostPort)).2) = true
      · rw [if_pos kept, if_pos kept, if_neg]
        simp only [ne_eq, Bool.and_eq_true, decide_eq_true_eq] at kept
        exact kept.1
      · rw [if_neg kept, if_neg kept, if_pos rfl]

/-- The canonical host is the spelled one in lower case. -/
theorem canonicalHost_spelled (named : canonicalHost raw ≠ "") :
    canonicalHost raw = hostText (lower (spelledHost raw).1) (spelledHost raw).2 := by
  have form : canonicalHost raw = if trimSpace raw = "" then "" else
      canonHostPort (hostSpelling raw).1 (hostSpelling raw).2 := by
    unfold canonicalHost hostSpelling
    dsimp only
    split
    · rfl
    · cases cut "://" (trimSpace raw) with
      | some parts => rfl
      | none =>
        dsimp only
        cases cutLast '@' (trimSpace raw) with
        | some parts =>
          dsimp only
          cases scpHostColon parts.2 with
          | some halves =>
            dsimp only
            split <;> rfl
          | none => rfl
        | none =>
          dsimp only
          split
          · rfl
          · cases cut ":" (beforeAny isHostEnd (trimSpace raw)) with
            | some halves =>
              dsimp only
              split <;> rfl
            | none => rfl
  rw [form] at named ⊢
  split at named
  · exact absurd rfl named
  · rename_i present
    rw [if_neg present]
    rw [canonHostPort_eq] at named ⊢
    dsimp only at named ⊢
    split at named
    · exact absurd rfl named
    · rename_i some
      rw [if_neg some]
      unfold spelledHost
      dsimp only

/-! ## Canonical hosts that stay -/

/-- A canonical host that is read back as it is: it is trimmed and not bracketed, a single
colon in it is followed by a number, and the host and port it then has need no change. -/
def settled (host : String) : Bool :=
  trimSpace host = host && !hasPrefix "[" host &&
    (match cut ":" host with
      | some (before, tail) => before = "" || countChar ':' host ≠ 1 || isInteger tail
      | none => true) &&
    let (name, port) := splitHostPort host
    !hasSuffix "." name && !(port ≠ "" && isDefaultHostPort "" port)

/-- What re-reading a host does when it has neither a path nor user information. -/
def rereadHost (s : String) : String :=
  if hasPrefix "[" s then canonHostPort "" s
  else
    match cut ":" s with
    | some (host, tail) =>
      if host ≠ "" && countChar ':' s = 1 && !isInteger tail then canonHostPort "" host
      else canonHostPort "" s
    | none => canonHostPort "" s

theorem validCanonicalHost_plain (valid : validCanonicalHost host = true) :
    ∀ c ∈ host.toList, " \t\r\n/?#@".toList.contains c = false := by
  simp only [validCanonicalHost, Bool.and_eq_true, Bool.not_eq_true', containsAny,
    any_eq_false] at valid
  exact fun c member => by simpa using valid.1.2 c member

theorem validCanonicalHost_chars (valid : validCanonicalHost host = true) :
    host ≠ "" ∧ ∀ c ∈ host.toList, isHostEnd c = false ∧ c ≠ '@' := by
  refine ⟨?_, fun c member => ?_⟩
  · rintro rfl
    revert valid
    decide
  · have plain := validCanonicalHost_plain valid c member
    simp only [String.reduceToList, contains_cons, Bool.or_eq_false_iff,
      beq_eq_false_iff_ne] at plain
    obtain ⟨-, -, -, -, slash, query, fragment, user, -⟩ := plain
    exact ⟨by simp [isHostEnd, slash, query, fragment], user⟩

theorem canonicalHost_valid (valid : validCanonicalHost host = true) :
    canonicalHost host = if trimSpace host = "" then "" else rereadHost (trimSpace host) := by
  have chars : ∀ c ∈ (trimSpace host).toList, isHostEnd c = false ∧ c ≠ '@' :=
    fun c member => (validCanonicalHost_chars valid).2 c ((trimSpace_sublist host).subset member)
  have noSlash : '/' ∉ (trimSpace host).toList := fun member => by
    have stop := (chars _ member).1
    revert stop
    decide
  have noAt : '@' ∉ (trimSpace host).toList := fun member => (chars _ member).2 rfl
  have whole : beforeAny isHostEnd (trimSpace host) = trimSpace host := by
    rw [beforeAny, onList, takeWhile_eq_self_iff.mpr, String.ofList_toList]
    intro c member
    rw [(chars c member).1]
    rfl
  unfold canonicalHost rereadHost
  dsimp only
  rw [cut_none_of_not_mem (c := '/') (by decide) noSlash, cutLast_none.mpr noAt]
  dsimp only
  generalize beforeAny isHostEnd (trimSpace host) = text at whole ⊢
  subst whole
  cases cut ":" (trimSpace host) <;> rfl

/-! ## Lengths -/

/-- An unbracketed host splits at its only colon, if a number follows. -/
theorem splitHostPort_plain (plain : hasPrefix "[" hostPort = false) :
    splitHostPort hostPort = (hostPort, "") ∨
      ∃ name port, splitHostPort hostPort = (name, port) ∧
        hostPort.toList = name.toList ++ ':' :: port.toList ∧ name ≠ "" ∧ port ≠ "" ∧
        isInteger port = true := by
  unfold splitHostPort
  rw [if_neg (by simp [plain])]
  cases found : cutLast ':' hostPort with
  | none => exact .inl rfl
  | some parts =>
    dsimp only
    split
    · rename_i port
      obtain ⟨whole, -⟩ := cutLast_iff.mp found
      simp only [Bool.and_eq_true, decide_eq_true_eq] at port
      refine .inr ⟨parts.1, parts.2, rfl, whole, port.1.1, ?_, port.2⟩
      intro empty
      rw [empty] at port
      exact absurd port.2 (by decide)
    · exact .inl rfl

theorem length_hostText (host port : String) :
    (hostText host port).toList.length ≤ host.toList.length + 1 + port.toList.length := by
  unfold hostText
  split
  · omega
  · simp only [String.toList_append, length_append, String.reduceToList, length_cons,
      length_nil]
    omega

theorem length_bracketed {before after : String} (opens : hasPrefix "[" hostPort = true)
    (closes : cut "]" hostPort = some (before, after)) :
    (hostText (splitHostPort hostPort).1 (splitHostPort hostPort).2).toList.length <
      hostPort.toList.length := by
  obtain ⟨whole, -⟩ := (cut_char_iff (c := ']') rfl).mp closes
  have bracket : hasPrefix "[" before = true := by
    unfold hasPrefix at opens ⊢
    rw [whole] at opens
    cases shape : before.toList with
    | nil => simp [shape] at opens
    | cons c rest =>
      simp only [shape, cons_append] at opens
      simpa using opens
  have inner := congrArg length (toList_of_hasPrefix bracket)
  have size := congrArg length whole
  simp only [length_append, length_cons, String.reduceToList, length_nil]
    at inner size
  unfold splitHostPort
  rw [if_pos opens, closes]
  dsimp only
  by_cases colon : hasPrefix ":" after = true
  · have tail := congrArg length (toList_of_hasPrefix colon)
    simp only [length_append, length_cons, String.reduceToList, length_nil] at tail
    rw [if_pos colon]
    have bound := length_hostText (trimPrefix "[" before) (trimPrefix ":" after)
    omega
  · rw [if_neg colon, hostText, if_pos rfl]
    omega

theorem length_trimSuffix_le (suf s : String) :
    (trimSuffix suf s).toList.length ≤ s.toList.length := by
  unfold trimSuffix
  split
  · rw [onList, String.toList_ofList]
    exact length_take_le' _ _
  · exact le_rfl

theorem length_trimSuffix_dot (ends : hasSuffix "." s = true) :
    (trimSuffix "." s).toList.length < s.toList.length := by
  have some : 0 < s.toList.length :=
    length_pos_of_mem ((isSuffixOf_iff_suffix.mp ends).subset mem_cons_self)
  rw [trimSuffix, if_pos ends, onList, String.toList_ofList, length_take]
  simp only [String.reduceToList, length_cons, length_nil]
  omega

theorem length_canonHostPort_split (scheme : String) (trimmed : trimSpace hostPort = hostPort) :
    (canonHostPort scheme hostPort).toList.length ≤
      (hostText (splitHostPort hostPort).1 (splitHostPort hostPort).2).toList.length := by
  rw [canonHostPort_eq, trimmed]
  dsimp only
  split
  · exact Nat.zero_le _
  · have dot := length_trimSuffix_le "." (splitHostPort hostPort).1
    have low : (lower (trimSuffix "." (splitHostPort hostPort).1)).toList.length =
        (trimSuffix "." (splitHostPort hostPort).1).toList.length := by simp
    unfold hostText
    by_cases kept : ((splitHostPort hostPort).2 ≠ "" &&
        !isDefaultHostPort scheme (splitHostPort hostPort).2) = true
    · have some : (splitHostPort hostPort).2 ≠ "" := by
        simp only [Bool.and_eq_true, decide_eq_true_eq] at kept
        exact kept.1
      rw [if_pos kept, if_neg some, if_neg some]
      simp only [String.toList_append, length_append]
      omega
    · rw [if_neg kept, if_pos rfl]
      split
      · omega
      · simp only [String.toList_append, length_append]
        omega

theorem length_split (hostPort : String) :
    (hostText (splitHostPort hostPort).1 (splitHostPort hostPort).2).toList.length ≤
      hostPort.toList.length := by
  by_cases opens : hasPrefix "[" hostPort = true
  · cases closes : cut "]" hostPort with
    | some parts => exact (length_bracketed opens closes).le
    | none =>
      rw [splitHostPort, if_pos opens, closes]
      exact le_rfl
  · rcases splitHostPort_plain (by simpa using opens) with
      whole | ⟨name, port, parts, shape, -, -, -⟩
    · rw [whole]
      exact le_rfl
    · rw [parts, shape, length_append, length_cons]
      have bound := length_hostText name port
      dsimp only
      omega

theorem canonHostPort_trimSpace (scheme hostPort : String) :
    canonHostPort scheme (trimSpace hostPort) = canonHostPort scheme hostPort := by
  unfold canonHostPort
  rw [trimSpace_trimSpace]

theorem length_canonHostPort_le (scheme hostPort : String) :
    (canonHostPort scheme hostPort).toList.length ≤ hostPort.toList.length := by
  rw [← canonHostPort_trimSpace]
  exact (length_canonHostPort_split scheme (trimSpace_trimSpace hostPort)).trans
    ((length_split _).trans (trimSpace_sublist hostPort).length_le)

/-! ## The hosts that stay -/

theorem lowerChar_digit (digit : c.isDigit = true) : lowerChar c = c := by
  rcases capital_or_self c with ⟨n, bound, rfl, -⟩ | same
  · have letter := (by decide : ∀ n < 26, (Char.ofNat (65 + n)).isDigit = false) n bound
    rw [letter] at digit
    cases digit
  · exact same

theorem map_lowerChar_decimal
    (number : isDecimal limit digits = true) : digits.map lowerChar = digits := by
  simp only [isDecimal, Bool.and_eq_true, all_eq_true] at number
  rw [map_congr_left fun c member => lowerChar_digit (number.1.2 c member), map_id']

theorem lower_of_isInteger (number : isInteger port = true) :
    lower port = port := by
  apply String.toList_inj.mp
  rw [toList_lower]
  unfold isInteger at number
  split at number
  · rename_i rest shape
    rw [shape, map_cons, map_lowerChar_decimal number]
    rfl
  · rename_i rest shape
    rw [shape, map_cons, map_lowerChar_decimal number]
    rfl
  · exact map_lowerChar_decimal number

theorem trimSuffix_of_not (open' : hasSuffix suf s = false) :
    trimSuffix suf s = s := by
  rw [trimSuffix, if_neg (by simp [open'])]

/-- What is left of a host without its dot is the host itself only if it has none. -/
theorem lower_trimSuffix_self :
    lower (trimSuffix "." host) = host ↔ lower host = host ∧ hasSuffix "." host = false := by
  constructor
  · intro same
    have open' : hasSuffix "." host = false := by
      rw [← Bool.not_eq_true]
      intro ends
      have shorter := length_trimSuffix_dot ends
      have size := congrArg (fun s => s.toList.length) same
      simp only [toList_lower, length_map] at size
      omega
    rw [trimSuffix_of_not open'] at same
    exact ⟨same, open'⟩
  · rintro ⟨low, open'⟩
    rw [trimSuffix_of_not open', low]

theorem hostText_or_empty (s : String) : (if s = "" then "" else hostText s "") = s := by
  split
  · rename_i empty
    exact empty.symm
  · rw [hostText, if_pos rfl]

/-- A host and port without brackets canonicalises to itself when it is in lower case,
ends in no dot and has no default port. -/
theorem canonHostPort_self (named : host ≠ "") (trimmed : trimSpace host = host)
    (plain : hasPrefix "[" host = false) : canonHostPort "" host = host ↔
      lower host = host ∧ hasSuffix "." (splitHostPort host).1 = false ∧
        ((splitHostPort host).2 = "" ∨ isDefaultHostPort "" (splitHostPort host).2 = false) := by
  rw [canonHostPort_eq, trimmed]
  dsimp only
  rcases splitHostPort_plain plain with whole | ⟨name, port, parts, shape, before, some, number⟩
  · rw [whole]
    simp only [ne_eq, not_true_eq_false, decide_false, Bool.false_and, Bool.false_eq_true,
      if_false, true_or, and_true, hostText_or_empty]
    exact lower_trimSuffix_self
  · rw [parts]
    dsimp only
    have lowPort : port.toList.map lowerChar = port.toList := by
      rw [← toList_lower, lower_of_isInteger number]
    by_cases default : isDefaultHostPort "" port = true
    · simp only [default, Bool.not_true, Bool.and_false, Bool.false_eq_true, if_false,
        hostText_or_empty]
      refine ⟨fun same => ?_, fun kept => by simp [some] at kept⟩
      -- the port is gone, so the text is shorter
      have size := congrArg length shape
      have length := congrArg (fun s => s.toList.length) same
      have bound := length_trimSuffix_le "." name
      simp only [toList_lower, length_map] at length
      rw [length_append, length_cons] at size
      omega
    · have other : isDefaultHostPort "" port = false := by simpa using default
      have text : ∀ left : String, hostText left port = host ↔ left = name := by
        intro left
        rw [hostText, if_neg some, ← String.toList_inj, shape, ← String.toList_inj]
        simp only [String.toList_append, String.reduceToList, append_assoc,
          singleton_append]
        exact append_left_inj (':' :: port.toList)
      have low : lower host = host ↔ lower name = name := by
        rw [← String.toList_inj, toList_lower, shape, map_append, map_cons, lowPort,
          ← String.toList_inj, toList_lower]
        exact append_left_inj (':' :: port.toList)
      simp only [some, ne_eq, not_false_eq_true, decide_true, Bool.true_and, other, Bool.not_false,
        if_true, false_or, and_true, low]
      rw [← lower_trimSuffix_self, ← text]
      split
      · rename_i empty
        rw [empty]
        refine ⟨fun nothing => absurd nothing.symm named, fun same => ?_⟩
        exact absurd ((text "").mp same).symm before
      · rfl

theorem length_rereadHost_le (s : String) : (rereadHost s).toList.length ≤ s.toList.length := by
  unfold rereadHost
  split
  · exact length_canonHostPort_le "" s
  · cases found : cut ":" s with
    | none => exact length_canonHostPort_le "" s
    | some parts =>
      dsimp only
      split
      · obtain ⟨shape, -⟩ := (cut_char_iff (c := ':') rfl).mp found
        have bound := length_canonHostPort_le "" parts.1
        rw [shape, length_append]
        omega
      · exact length_canonHostPort_le "" s

/-- A valid canonical host is read back as it is exactly when it is in lower case and
settled. -/
theorem canonicalHost_self_iff (valid : validCanonicalHost host = true) :
    canonicalHost host = host ↔ lower host = host ∧ settled host = true := by
  obtain ⟨named, -⟩ := validCanonicalHost_chars valid
  rw [canonicalHost_valid valid]
  by_cases trimmed : trimSpace host = host
  swap
  · -- a host that is trimmed on reading comes back shorter
    refine ⟨fun same => absurd ?_ trimmed, fun kept => absurd ?_ trimmed⟩
    · have bound : host.toList.length ≤ (trimSpace host).toList.length := by
        split at same
        · rename_i blank
          exact absurd same.symm named
        · have bound := length_rereadHost_le (trimSpace host)
          rwa [same] at bound
      exact String.toList_inj.mp ((trimSpace_sublist host).eq_of_length_le bound)
    · simp only [settled, Bool.and_eq_true, decide_eq_true_eq] at kept
      exact kept.2.1.1.1
  rw [trimmed, if_neg named]
  by_cases opens : hasPrefix "[" host = true
  · refine ⟨fun same => ?_, fun kept => by simp [settled, opens] at kept⟩
    have closed : ∃ parts, cut "]" host = some parts := by
      cases closes : cut "]" host with
      | some parts => exact ⟨parts, rfl⟩
      | none => simp [validCanonicalHost, opens, closes] at valid
    obtain ⟨parts, closes⟩ := closed
    rw [rereadHost, if_pos opens] at same
    have bound := length_canonHostPort_split "" trimmed
    have shorter := length_bracketed opens closes
    rw [same] at bound
    omega
  have plain : hasPrefix "[" host = false := by simpa using opens
  have last : canonHostPort "" host = host ↔ lower host = host ∧
      (!hasSuffix "." (splitHostPort host).1 && !((splitHostPort host).2 ≠ "" &&
        isDefaultHostPort "" (splitHostPort host).2)) = true := by
    rw [canonHostPort_self named trimmed plain]
    simp
  unfold rereadHost settled
  rw [if_neg opens]
  cases found : cut ":" host with
  | none => simpa [trimmed, plain] using last
  | some parts =>
    dsimp only
    by_cases legacy : (parts.1 ≠ "" && countChar ':' host = 1 && !isInteger parts.2) = true
    · rw [if_pos legacy]
      simp only [ne_eq, Bool.and_eq_true, decide_eq_true_eq, Bool.not_eq_true'] at legacy
      refine ⟨fun same => ?_, fun kept => ?_⟩
      · obtain ⟨shape, -⟩ := (cut_char_iff (c := ':') rfl).mp found
        have bound := length_canonHostPort_le "" parts.1
        rw [same, shape, length_append, length_cons] at bound
        omega
      · simp [legacy.1.1, legacy.1.2, legacy.2] at kept
    · rw [if_neg legacy, last]
      have kept : (decide (parts.1 = "") || decide (countChar ':' host ≠ 1) ||
          isInteger parts.2) = true := by
        by_contra lost
        simp only [Bool.or_eq_true, decide_eq_true_eq, not_or, ne_eq, not_not,
          Bool.not_eq_true] at lost
        exact legacy (by simp [lost.1.1, lost.1.2, lost.2])
      rw [kept]
      simp [trimmed, plain]

end KiwiCI.Auth
