import KiwiCI.Lib.Text
import KiwiCI.Model

/-!
Job conditions: `internal/pipeline/condition.go`, with the path globs of
`pathmatch.go` that `branchMatch` uses.

`eval` recurses on strictly shorter pieces of its expression, so it is written
by recursion on a fuel that starts above the expression's length; `conditionAllows`
is the gate every scheduler path asks.
-/

namespace KiwiCI.Pipeline

open Text

/-! ## Globs -/

/-- One piece of a compiled glob: `*`, `**/`, `**`, `?` or a literal. -/
inductive GlobToken where
  | segment
  | directories
  | anything
  | one
  | literal (c : Char)
  deriving DecidableEq, Repr

/-- `compileGlob`.  The source goes through the pattern byte by byte and quotes each
byte as the character of that number. -/
def compileGlob : List Char → List GlobToken
  | '*' :: '*' :: '/' :: rest => .directories :: compileGlob rest
  | '*' :: '*' :: rest => .anything :: compileGlob rest
  | '*' :: rest => .segment :: compileGlob rest
  | '?' :: rest => .one :: compileGlob rest
  | c :: rest => (String.utf8EncodeChar c).map (.literal <| .ofNat ·.toNat) ++ compileGlob rest
  | [] => []

/-- Consume any number of characters `p` admits, then continue with `k`. -/
def consume (p : Char → Bool) (k : List Char → Bool) : List Char → Bool
  | [] => k []
  | c :: rest => k (c :: rest) || (p c && consume p k rest)

/-- The anchored match of a compiled glob. -/
def matchTokens : List GlobToken → List Char → Bool
  | [], s => s.isEmpty
  | .literal c :: tokens, s =>
    match s with
    | d :: rest => c == d && matchTokens tokens rest
    | [] => false
  | .one :: tokens, s =>
    match s with
    | d :: rest => d ≠ '/' && matchTokens tokens rest
    | [] => false
  | .segment :: tokens, s => consume (· ≠ '/') (matchTokens tokens) s
  | .anything :: tokens, s => consume (· ≠ '\n') (matchTokens tokens) s
  | .directories :: tokens, s =>
    matchTokens tokens s ||
      consume (· ≠ '\n') (fun rest => match rest with
        | '/' :: below => matchTokens tokens below
        | _ => false) s

/-- `globMatch`: backslashes are slashes and a leading `./` is dropped. -/
def globMatch (pattern value : String) : Bool :=
  let slashed := onList (List.map fun c => if c = '\\' then '/' else c) pattern
  matchTokens (compileGlob (trimPrefix "./" slashed).toList) value.toList

/-! ## Top-level structure of an expression -/

/-- `indexTopLevelFrom`: the first position from `start` on, outside quotes and
parentheses, where `needle` stands. -/
def indexTopLevelFrom (needle : List Char) (start : Nat) (i depth : Nat) (quote : Option Char)
    (escaped : Bool) : List Char → Option Nat
  | [] => none
  | ch :: rest =>
    if rest.length + 1 < needle.length then none
    else if escaped then indexTopLevelFrom needle start (i + 1) depth quote false rest
    else
      match quote with
      | some q =>
        if q = '"' ∧ ch = '\\' then indexTopLevelFrom needle start (i + 1) depth quote true rest
        else if ch = q then indexTopLevelFrom needle start (i + 1) depth none false rest
        else indexTopLevelFrom needle start (i + 1) depth quote false rest
      | none =>
        if ch = '\'' ∨ ch = '"' then
          indexTopLevelFrom needle start (i + 1) depth (some ch) false rest
        else
          let depth := if ch = '(' then depth + 1 else if ch = ')' then depth - 1 else depth
          if start ≤ i ∧ depth = 0 ∧ needle.isPrefixOf (ch :: rest) = true then some i
          else indexTopLevelFrom needle start (i + 1) depth none false rest

/-- The pieces `splitLogical` finds from position `start` on; the fuel bounds
their number. -/
def splitFrom (s op : List Char) : Nat → Nat → List (List Char)
  | 0, start => [s.drop start]
  | fuel + 1, start =>
    match indexTopLevelFrom op start 0 0 none false s with
    | none => [s.drop start]
    | some i => (s.take i).drop start :: splitFrom s op fuel (i + op.length)

def splitLogical (s op : List Char) : List (List Char) :=
  match splitFrom s op s.length 0 with
  | [_] => [s]
  | pieces => pieces.map (trimBy isSpace)

/-- The pairs of matching parentheses outside quotes; `none` when they do not
balance. -/
def matchingParens (i : Nat) (stack : List Nat) (quote : Option Char) :
    List Char → Option (List (Nat × Nat))
  | [] => if stack = [] then some [] else none
  | ch :: rest =>
    match quote with
    | some q => matchingParens (i + 1) stack (if ch = q then none else quote) rest
    | none =>
      if ch = '\'' ∨ ch = '"' then matchingParens (i + 1) stack (some ch) rest
      else if ch = '(' then matchingParens (i + 1) (i :: stack) none rest
      else if ch = ')' then
        match stack with
        | [] => none
        | opened :: stack => (matchingParens (i + 1) stack none rest).map ((opened, i) :: ·)
      else matchingParens (i + 1) stack none rest

/-- How many layers of parentheses enclose the whole text, counted from `j`. -/
def enclosingLayers (pairs : List (Nat × Nat)) (length : Nat) : Nat → Nat → Nat
  | 0, _ => 0
  | fuel + 1, j =>
    if j < length / 2 ∧ (j, length - 1 - j) ∈ pairs then 1 + enclosingLayers pairs length fuel (j + 1)
    else 0

def stripOuterParens (s : List Char) : List Char :=
  let s := trimBy isSpace s
  if s.length < 2 ∨ s.head? ≠ some '(' ∨ s.getLast? ≠ some ')' then s
  else
    match matchingParens 0 [] none s with
    | none => s
    | some pairs =>
      let layers := enclosingLayers pairs s.length s.length 0
      if layers = 0 then s
      else trimBy isSpace ((s.drop layers).take (s.length - 2 * layers))

/-! ## Evaluation -/

/-- `EvalContext`.  The status is the text of one, or empty. -/
structure EvalContext where
  status : String := ""
  env : List (String × String) := []
  event : String := ""
  branch : String := ""

def isQuoted (v : List Char) : Bool :=
  v.length ≥ 2 && ((v.head? = some '\'' && v.getLast? = some '\'') ||
    (v.head? = some '"' && v.getLast? = some '"'))

def trimLiteral (v : List Char) : List Char :=
  let v := trimBy isSpace v
  if isQuoted v then (v.drop 1).dropLast else v

/-- `branchMatchCall`: the glob of a `branchMatch('…')` call. -/
def branchMatchCall (expr : List Char) : Option (List Char) :=
  if "branchMatch".toList.isPrefixOf expr then
    let rest := trimBy isSpace (expr.drop "branchMatch".toList.length)
    if rest.length < 2 ∨ rest.head? ≠ some '(' ∨ rest.getLast? ≠ some ')' then none
    else
      let inner := trimBy isSpace ((rest.drop 1).dropLast)
      if isQuoted inner then some (trimLiteral inner) else none
  else none

/-- `comparison`: a top-level `!=`, else a top-level `==`; the flag is equality. -/
def comparison (expr : List Char) : Option (List Char × Bool × List Char) :=
  match indexTopLevelFrom "!=".toList 0 0 0 none false expr with
  | some i => some (trimBy isSpace (expr.take i), false, trimBy isSpace (expr.drop (i + 2)))
  | none =>
    (indexTopLevelFrom "==".toList 0 0 0 none false expr).map fun i =>
      (trimBy isSpace (expr.take i), true, trimBy isSpace (expr.drop (i + 2)))

/-- `resolveConditionValue`; `none` is the error of an unsupported value. -/
def resolveConditionValue (v : List Char) (c : EvalContext) : Option (List Char) :=
  let v := trimBy isSpace v
  if v = "event".toList then some c.event.toList
  else if v = "branch".toList then some c.branch.toList
  else if v = "status".toList then some c.status.toList
  else if "env.".toList.isPrefixOf v then
    some ((c.env.lookup (String.ofList (v.drop 4))).getD "").toList
  else if isQuoted v then some (trimLiteral v)
  else none

/-- The leading negations: whether their number is odd, and what follows them. -/
def stripBangs : Nat → List Char → Bool × List Char
  | fuel + 1, '!' :: rest =>
    let (negated, expr) := stripBangs fuel (trimBy isSpace rest)
    (!negated, expr)
  | _, expr => (false, expr)

/-- The disjunction or conjunction of the pieces, decided left to right: the
first error or the first value equal to `stop` ends it. -/
def evalPieces (eval : List Char → Option Bool) (stop : Bool) : List (List Char) → Option Bool
  | [] => some (!stop)
  | piece :: pieces =>
    match eval piece with
    | none => none
    | some value => if value = stop then some stop else evalPieces eval stop pieces

/-- The predicates and comparisons without logical operators. -/
def evalAtom (expr : List Char) (c : EvalContext) : Option Bool :=
  if expr = "success()".toList then
    some (c.status ≠ Status.failure.text && c.status ≠ Status.cancelled.text &&
      c.status ≠ Status.blocked.text)
  else if expr = "always()".toList then some true
  else if expr = "failure()".toList then
    some (c.status = Status.failure.text || c.status = Status.blocked.text)
  else if expr = "cancelled()".toList then some (c.status = Status.cancelled.text)
  else
    match branchMatchCall expr with
    | some pattern => some (globMatch (String.ofList pattern) c.branch)
    | none =>
      match comparison expr with
      | some (left, equal, right) =>
        (resolveConditionValue left c).map fun actual =>
          if equal then actual = trimLiteral right else actual ≠ trimLiteral right
      | none => none

/-- `Eval` below the length check; `none` is an evaluation error. -/
def evalFuel : Nat → List Char → EvalContext → Option Bool
  | 0, _, _ => none
  | fuel + 1, expr, c =>
    let expr := stripOuterParens expr
    if expr.head? = some '!' then
      let (negated, inner) := stripBangs expr.length expr
      (evalFuel fuel (stripOuterParens inner) c).map fun ok => if negated then !ok else ok
    else if expr = [] ∨ expr = "true".toList then some true
    else if expr = "false".toList then some false
    else
      match splitLogical expr "||".toList with
      | first :: second :: rest => evalPieces (evalFuel fuel · c) true (first :: second :: rest)
      | _ =>
        match splitLogical expr "&&".toList with
        | first :: second :: rest => evalPieces (evalFuel fuel · c) false (first :: second :: rest)
        | _ => evalAtom expr c

def maxConditionBytes : Nat := 8 * 1024

/-- `Eval`; `none` is an error. -/
def eval (expr : String) (c : EvalContext) : Option Bool :=
  if expr.utf8ByteSize > maxConditionBytes then none
  else evalFuel (expr.toList.length + 1) expr.toList c

/-- `ConditionAllows`: an empty condition is `success()`, an error is false. -/
def conditionAllows (expr : String) (c : EvalContext) : Bool :=
  let expr := trimSpace expr
  (eval (if expr = "" then "success()" else expr) c).getD false

def conditionBranchFromRef (ref : String) : String :=
  if hasPrefix "refs/heads/" ref then trimPrefix "refs/heads/" ref
  else if hasPrefix "refs/" ref then ""
  else ref

/-- `JobConditionContext`, without an environment. -/
def jobConditionContext (status : Status) (ref event : String) : EvalContext where
  status := status.text
  branch := conditionBranchFromRef ref
  event := event

/-!
Laws of the condition language.

Admission evaluates a condition once, in the empty context, and `&&` and `||` look at
no operand they do not need.  `wellFormed` asks the same of every operand, and a
condition that passes it evaluates in every context.
-/

/-! ## Validation -/

/-- `validateCondition`; the text of its error is left out. -/
def validateCondition (condition : String) : Bool :=
  if condition.utf8ByteSize > maxConditionBytes then false
  else if trimSpace condition = "" then true
  else (eval condition {}).isSome

/-- Whether every operand evaluates, also those that are not looked at. -/
def wellFormedFuel : Nat → List Char → Bool
  | 0, _ => false
  | fuel + 1, expr =>
    let expr := stripOuterParens expr
    if expr.head? = some '!' then wellFormedFuel fuel (stripOuterParens (stripBangs expr.length expr).2)
    else if expr = [] ∨ expr = "true".toList then true
    else if expr = "false".toList then true
    else
      match splitLogical expr "||".toList with
      | first :: second :: rest => (first :: second :: rest).all (wellFormedFuel fuel)
      | _ =>
        match splitLogical expr "&&".toList with
        | first :: second :: rest => (first :: second :: rest).all (wellFormedFuel fuel)
        | _ => (evalAtom expr {}).isSome

/-- Every operand of the condition evaluates in the empty context. -/
def wellFormed (condition : String) : Bool :=
  wellFormedFuel (condition.toList.length + 1) condition.toList

/-- Whether an operand evaluates does not depend on the context. -/
theorem evalAtom_isSome (expr : List Char) (c c' : EvalContext) :
    (evalAtom expr c).isSome = (evalAtom expr c').isSome := by
  have value (v : List Char) :
      (resolveConditionValue v c).isSome = (resolveConditionValue v c').isSome := by
    unfold resolveConditionValue
    dsimp only
    split_ifs <;> rfl
  unfold evalAtom
  split_ifs
  iterate 4 · rfl
  generalize branchMatchCall expr = glob
  generalize comparison expr = parts
  rcases glob with _ | pattern
  · rcases parts with _ | parts
    · rfl
    · simp [value]
  · simp

theorem evalPieces_isSome {f : List Char → Option Bool}
    (each : ∀ p ∈ pieces, (f p).isSome = true) : (evalPieces f stop pieces).isSome = true := by
  induction pieces with
  | nil => rfl
  | cons first rest ih =>
    obtain ⟨here, there⟩ := List.forall_mem_cons.mp each
    obtain ⟨value, found⟩ := Option.isSome_iff_exists.mp here
    rw [evalPieces, found]
    dsimp only
    split
    · rfl
    · exact ih there

theorem evalFuel_isSome (formed : wellFormedFuel fuel expr = true)
    (c : EvalContext) : (evalFuel fuel expr c).isSome = true := by
  induction fuel generalizing expr with
  | zero => cases formed
  | succ fuel ih =>
    have pieces {stop : Bool} {ps : List (List Char)} (all : ps.all (wellFormedFuel fuel) = true) :
        (evalPieces (evalFuel fuel · c) stop ps).isSome = true :=
      evalPieces_isSome fun p member => ih (List.all_eq_true.mp all p member)
    have atom (formed : (evalAtom (stripOuterParens expr) {}).isSome = true) :
        (evalAtom (stripOuterParens expr) c).isSome = true := by
      rw [evalAtom_isSome _ c {}]
      exact formed
    unfold wellFormedFuel at formed
    unfold evalFuel
    dsimp only at formed ⊢
    by_cases negated : (stripOuterParens expr).head? = some '!'
    · rw [if_pos negated] at formed
      rw [if_pos negated, Option.isSome_map]
      exact ih formed
    rw [if_neg negated] at formed
    rw [if_neg negated]
    split
    · rfl
    split
    · rfl
    rename_i value constant
    rw [if_neg value, if_neg constant] at formed
    · generalize splitLogical (stripOuterParens expr) "||".toList = ors at formed ⊢
      generalize splitLogical (stripOuterParens expr) "&&".toList = ands at formed ⊢
      rcases ors with _ | ⟨_, _ | ⟨_, _⟩⟩
      · rcases ands with _ | ⟨_, _ | ⟨_, _⟩⟩
        · exact atom formed
        · exact atom formed
        · exact pieces formed
      · rcases ands with _ | ⟨_, _ | ⟨_, _⟩⟩
        · exact atom formed
        · exact atom formed
        · exact pieces formed
      · exact pieces formed

/-- **An accepted condition evaluates in every context**, if every operand of it does,
the ones behind a decided `&&` or `||` included. -/
theorem validated_condition_evaluates {condition : String}
    (accepted : validateCondition condition = true) (formed : wellFormed condition = true)
    (c : EvalContext) : (eval condition c).isSome = true := by
  unfold validateCondition at accepted
  unfold eval
  split_ifs at accepted ⊢ with long
  · exact evalFuel_isSome formed c
  · exact evalFuel_isSome formed c

/-- A condition on the branch is decided whatever became of the needs. -/
theorem failure_on_branch_evaluates :
    (eval "failure() && branchMatch('release/*')" { status := "failure" }).isSome = true :=
  validated_condition_evaluates (by decide +kernel) (by decide +kernel) _

/-- An unknown name behind `failure()` is accepted and fails when a need has failed. -/
theorem unknown_name_accepted :
    validateCondition "failure() && github.ref == 'main'" = true ∧
      eval "failure() && github.ref == 'main'" { status := "failure" } = none := by
  decide +kernel

/-!
What a path glob stands for.

`Derives` gives the rules of the pattern language, one per wildcard, without the
matcher.  `globMatch` decides it for the pattern with its separators normalised, as
long as the pattern is ASCII and no line break has to be crossed by a `**`.
-/

open List

/-! ## The rules -/

/-- Zero or more whole segments, each with the slash after it. -/
inductive Segments : List Char → Prop where
  | none : Segments []
  | cons {segment dirs : List Char} (within : '/' ∉ segment) (more : Segments dirs) :
      Segments (segment ++ '/' :: dirs)

/-- The paths a pattern stands for, one rule per wildcard and the longest wildcard
first. -/
def Derives : List Char → List Char → Prop
  | '*' :: '*' :: '/' :: rest, path =>
    ∃ dirs below, path = dirs ++ below ∧ Segments dirs ∧ Derives rest below
  | '*' :: '*' :: rest, path => ∃ run below, path = run ++ below ∧ Derives rest below
  | '*' :: rest, path => ∃ run below, path = run ++ below ∧ '/' ∉ run ∧ Derives rest below
  | '?' :: rest, path => ∃ c below, path = c :: below ∧ c ≠ '/' ∧ Derives rest below
  | c :: rest, path => ∃ below, path = c :: below ∧ Derives rest below
  | [], path => path = []

/-- The pattern `globMatch` compiles: backslashes are slashes and a leading `./` is
dropped. -/
def normalizePattern (pattern : String) : List Char :=
  (trimPrefix "./" (onList (List.map fun c => if c = '\\' then '/' else c) pattern)).toList

variable {path : List Char}

/-- Whole segments are nothing or anything that ends in a slash. -/
theorem segments_iff :
    Segments dirs ↔ dirs = [] ∨ ∃ lead, dirs = lead ++ ['/'] := by
  constructor
  · intro whole
    induction whole with
    | none => exact .inl rfl
    | @cons segment dirs _ _ ih =>
      rcases ih with rfl | ⟨lead, rfl⟩
      · exact .inr ⟨segment, rfl⟩
      · exact .inr ⟨segment ++ '/' :: lead, by simp⟩
  · have each (lead segment : List Char) (within : '/' ∉ segment) :
        Segments (segment ++ (lead ++ ['/'])) := by
      -- The segment is what was read since the last slash.
      induction lead generalizing segment with
      | nil => exact .cons within .none
      | cons c lead ih =>
        by_cases slash : c = '/'
        · rw [slash]
          exact .cons within (ih [] (by simp))
        · have longer : '/' ∉ segment ++ [c] := by simp [within, Ne.symm slash]
          simpa using ih (segment ++ [c]) longer
    rintro (rfl | ⟨lead, rfl⟩)
    · exact .none
    · exact each lead [] (by simp)

/-! ## The matcher -/

theorem consume_iff {p : Char → Bool} {k : List Char → Bool} :
    consume p k path = true ↔
      ∃ run rest, path = run ++ rest ∧ (∀ c ∈ run, p c = true) ∧ k rest = true := by
  induction path with
  | nil => simp [consume, and_assoc]
  | cons c path ih =>
    rw [consume, Bool.or_eq_true, Bool.and_eq_true, ih]
    constructor
    · rintro (here | ⟨admitted, run, rest, rfl, all, later⟩)
      · exact ⟨[], c :: path, rfl, by simp, here⟩
      · exact ⟨c :: run, rest, rfl, by simpa [admitted] using all, later⟩
    · rintro ⟨run, rest, split, all, later⟩
      cases run with
      | nil => exact .inl (by rw [split]; exact later)
      | cons d run =>
        obtain ⟨rfl, rfl⟩ := cons.inj split
        exact .inr ⟨all c mem_cons_self, run, rest, rfl,
          fun x member => all x (mem_cons_of_mem _ member), later⟩

theorem derives_itself (star : c ≠ '*') (mark : c ≠ '?') :
    Derives (c :: rest) path ↔ ∃ below, path = c :: below ∧ Derives rest below := by
  rw [Derives]
  · exact fun _ same => absurd same star
  · exact fun _ same => absurd same star
  · exact star
  · exact mark

theorem compileGlob_literal (ascii : c.toNat < 128) (star : c ≠ '*')
    (mark : c ≠ '?') : compileGlob (c :: rest) = .literal c :: compileGlob rest := by
  have bytes : String.utf8EncodeChar c = [c.toNat.toUInt8] := if_pos (Nat.le_of_lt_succ ascii)
  have back : Char.ofNat c.toNat.toUInt8.toNat = c := by
    have small : c.toNat.toUInt8.toNat = c.toNat := Nat.mod_eq_of_lt (by omega)
    rw [small, Char.ofNat_toNat]
  rw [compileGlob, bytes, map_singleton, back, singleton_append]
  · exact fun _ same => absurd same star
  · exact fun _ same => absurd same star
  · exact star
  · exact mark

/-! ## Compiled patterns -/

section Compiled

variable {pattern : List Char}

/-- A `**` that crosses no line break takes any run. -/
theorem consume_anything {k : List Char → Bool} (lines : '\n' ∉ path) :
    consume (· ≠ '\n') k path = true ↔ ∃ run rest, path = run ++ rest ∧ k rest = true := by
  rw [consume_iff]
  constructor
  · rintro ⟨run, rest, split, -, later⟩
    exact ⟨run, rest, split, later⟩
  · rintro ⟨run, rest, rfl, later⟩
    refine ⟨run, rest, rfl, fun c member => ?_, later⟩
    simp only [decide_eq_true_eq]
    rintro rfl
    exact lines (mem_append_left _ member)

/-- The compiled pattern matches what the rules derive. -/
theorem matchTokens_iff (ascii : ∀ c ∈ pattern, c.toNat < 128)
    (lines : ['*', '*'] <:+: pattern → '\n' ∉ path) :
    matchTokens (compileGlob pattern) path = true ↔ Derives pattern path := by
  induction pattern using compileGlob.induct generalizing path with
  | case1 rest ih =>
    have free : '\n' ∉ path := lines ⟨[], '/' :: rest, rfl⟩
    have below {lead rest' : List Char} (split : path = lead ++ rest') :
        matchTokens (compileGlob rest) rest' = true ↔ Derives rest rest' :=
      ih (fun c member => ascii c (by simp [member])) fun _ inside => free (by simp [split, inside])
    rw [compileGlob, matchTokens, Bool.or_eq_true, consume_anything free,
      below (nil_append path).symm, Derives]
    constructor
    · rintro (here | ⟨run, rest', split, later⟩)
      · exact ⟨[], path, rfl, .none, here⟩
      · split at later
        · rename_i rest'
          have whole : path = (run ++ ['/']) ++ rest' := by simpa using split
          exact ⟨_, rest', whole, segments_iff.mpr (.inr ⟨run, rfl⟩), (below whole).mp later⟩
        · cases later
    · rintro ⟨dirs, rest', split, lead, derived⟩
      rcases segments_iff.mp lead with rfl | ⟨run, rfl⟩
      · exact .inl (split ▸ derived)
      · exact .inr ⟨run, '/' :: rest', by simpa using split, (below split).mpr derived⟩
  | case2 rest other ih =>
    have free : '\n' ∉ path := lines ⟨[], rest, rfl⟩
    rw [compileGlob, matchTokens, consume_anything free, Derives]
    · refine exists_congr fun run => exists_congr fun rest' => and_congr_right fun split => ?_
      exact ih (fun c member => ascii c (by simp [member])) fun _ inside =>
        free (by simp [split, inside])
    all_goals exact other
  | case3 rest more other ih =>
    rw [compileGlob, matchTokens, consume_iff, Derives]
    · refine exists_congr fun run => exists_congr fun rest' => and_congr_right fun split =>
        and_congr ?_ ?_
      · simp only [decide_eq_true_eq]
        exact ⟨fun all slash => all _ slash rfl, fun within c member same => within (same ▸ member)⟩
      · exact ih (fun c member => ascii c (by simp [member])) fun double inside =>
          lines (double.trans (suffix_cons _ _).isInfix) (by simp [split, inside])
    all_goals assumption
  | case4 rest ih =>
    rw [compileGlob, Derives]
    cases path with
    | nil => simp [matchTokens]
    | cons d path =>
      have below : matchTokens (compileGlob rest) path = true ↔ Derives rest path :=
        ih (fun c member => ascii c (by simp [member])) fun double inside =>
          lines (double.trans (suffix_cons _ _).isInfix) (mem_cons_of_mem _ inside)
      simp only [matchTokens, Bool.and_eq_true, decide_eq_true_eq, below, cons.injEq]
      constructor
      · rintro ⟨within, derived⟩
        exact ⟨d, path, ⟨rfl, rfl⟩, within, derived⟩
      · rintro ⟨_, _, ⟨rfl, rfl⟩, within, derived⟩
        exact ⟨within, derived⟩
  | case5 c rest _ _ star mark ih =>
    rw [compileGlob_literal (ascii c mem_cons_self) star mark, derives_itself star mark]
    cases path with
    | nil => simp [matchTokens]
    | cons d path =>
      have below : matchTokens (compileGlob rest) path = true ↔ Derives rest path :=
        ih (fun c member => ascii c (by simp [member])) fun double inside =>
          lines (double.trans (suffix_cons _ _).isInfix) (mem_cons_of_mem _ inside)
      simp only [matchTokens, Bool.and_eq_true, beq_iff_eq, below, cons.injEq]
      constructor
      · rintro ⟨rfl, derived⟩
        exact ⟨path, ⟨rfl, rfl⟩, derived⟩
      · rintro ⟨_, ⟨rfl, rfl⟩, derived⟩
        exact ⟨rfl, derived⟩
  | case6 => rw [compileGlob, matchTokens, List.isEmpty_iff, Derives]

end Compiled

/-! ## `globMatch` -/

theorem derives_plain (star : '*' ∉ pattern) (mark : '?' ∉ pattern) :
    Derives pattern path ↔ path = pattern := by
  induction pattern generalizing path with
  | nil => rw [Derives]
  | cons c rest ih =>
    simp only [mem_cons, not_or] at star mark
    rw [derives_itself (Ne.symm star.1) (Ne.symm mark.1)]
    simp [ih star.2 mark.2]

/-- **`globMatch` decides the rules**, for the pattern with backslashes read as slashes
and without a leading `./`: an ASCII pattern matches the paths it stands for, where
those have no line break if the pattern has a `**`.  A pattern without wildcards
matches itself only. -/
theorem globMatch_iff_derives (pattern value : String)
    (ascii : ∀ c ∈ normalizePattern pattern, c.toNat < 128)
    (lines : ['*', '*'] <:+: normalizePattern pattern → '\n' ∉ value.toList) :
    (globMatch pattern value = true ↔ Derives (normalizePattern pattern) value.toList) ∧
      ('*' ∉ normalizePattern pattern → '?' ∉ normalizePattern pattern →
        (globMatch pattern value = true ↔ value.toList = normalizePattern pattern)) := by
  have decided : globMatch pattern value = true ↔
      Derives (normalizePattern pattern) value.toList := matchTokens_iff ascii lines
  exact ⟨decided, fun star mark => decided.trans (derives_plain star mark)⟩

/-- A pattern with every wildcard. -/
theorem globMatch_docs :
    globMatch "docs/**/*.m?" "docs/a/b/read me.md" = true ∧
      Derives (normalizePattern "docs/**/*.m?") "docs/a/b/read me.md".toList := by
  have matched : globMatch "docs/**/*.m?" "docs/a/b/read me.md" = true := by decide +kernel
  have ascii : (normalizePattern "docs/**/*.m?").all (·.toNat < 128) = true := by decide +kernel
  have decided := globMatch_iff_derives "docs/**/*.m?" "docs/a/b/read me.md"
    (fun c member => of_decide_eq_true (all_eq_true.mp ascii c member))
    fun _ => by decide +kernel
  exact ⟨matched, decided.1.mp matched⟩

/-- A backslash is no character of a path here, `**` stops at a line break, and a
character beyond ASCII is quoted byte by byte. -/
theorem globMatch_departs :
    (Derives "a\\b".toList "a\\b".toList ∧ globMatch "a\\b" "a\\b" = false) ∧
      (Derives "./a".toList "./a".toList ∧ globMatch "./a" "./a" = false) ∧
      (Derives "**".toList "a\nb".toList ∧ globMatch "**" "a\nb" = false) ∧
      (Derives "é".toList "é".toList ∧ globMatch "é" "é" = false) := by
  refine ⟨⟨?_, by decide +kernel⟩, ⟨?_, by decide +kernel⟩, ⟨?_, by decide +kernel⟩,
    ⟨?_, by decide +kernel⟩⟩
  · exact (derives_plain (by decide) (by decide)).mpr rfl
  · exact (derives_plain (by decide) (by decide)).mpr rfl
  · exact ⟨"a\nb".toList, [], by decide, rfl⟩
  · exact (derives_plain (by decide) (by decide)).mpr rfl

end KiwiCI.Pipeline
