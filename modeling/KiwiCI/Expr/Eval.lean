import KiwiCI.Lib.Text
import KiwiCI.Lib.Table
import Mathlib.Data.Char
import Mathlib.Data.List.Dedup
import Mathlib.Data.List.Lex

/-!
The expression language of interpolation holes: `internal/expr/parse.go` with the
path checks of `contexts.go`.

The lexer works on characters; everything it looks at is ASCII, and any other
character outside a string literal is an error, so bytes and characters agree.
The parser is recursive descent on the remaining tokens.  Nesting is bounded by
`maxDepth` and every nested call of the source passes `depth + 1`, so the model
recurses on the levels that are left and needs no fuel of its own; the loops of
`parseOr`, `parseAnd` and `parseCall` consume a token per round.
-/

namespace KiwiCI

namespace Expr

def maxDepth : Nat := 64

def maxTokens : Nat := 4096

def maxExprBytes : Nat := 64 * 1024

/-- A token; the end of the expression is the end of the list. -/
inductive Token where
  | ident (text : List Char)
  | number (text : List Char)
  | string (text : List Char)
  | lparen
  | rparen
  | comma
  | dot
  | and
  | or
  | not
  | eq
  | neq
  deriving DecidableEq, Repr

/-- Why an expression is refused. -/
inductive ParseError where
  | empty
  | tooLong
  | tooManyTokens
  | tooDeep
  | unexpectedCharacter (c : Char)
  | unterminatedString
  | invalidEscape (c : Char)
  | unexpectedEnd
  | unexpectedToken (t : Token)
  | missingParen
  | missingField
  | unknownContext (root : List Char)
  | requiresField (root : List Char)
  | noField (root : List Char) (fields : List (List Char))
  | unknownFunction (name : List Char)
  | wrongArity (name : List Char) (args : Nat)
  deriving DecidableEq, Repr

/-! ## Lexer -/

def isIdentStart (c : Char) : Bool :=
  c == '_' || ('a' ≤ c && c ≤ 'z') || ('A' ≤ c && c ≤ 'Z')

/-- An ASCII digit. -/
def isDigit (c : Char) : Bool := '0' ≤ c && c ≤ '9'

def isIdentPart (c : Char) : Bool := isIdentStart c || isDigit c || c == '-'

/-- The white space between tokens. -/
def isBlank (c : Char) : Bool := c == ' ' || c == '\t' || c == '\n' || c == '\r'

/-- The character an escape sequence stands for. -/
def unescape (next : Char) : Except ParseError Char :=
  if next = '\\' ∨ next = '\'' ∨ next = '"' then .ok next
  else if next = 'n' then .ok '\n'
  else if next = 't' then .ok '\t'
  else if next = 'r' then .ok '\r'
  else .error (.invalidEscape next)

/-- `lexString` after the opening quote: the text of the literal and what follows
its closing quote. -/
def lexString (quote : Char) : List Char → Except ParseError (List Char × List Char)
  | [] => .error .unterminatedString
  | c :: rest =>
    if c = quote then .ok ([], rest)
    else if c = '\\' then
      match rest with
      | [] => .error .unterminatedString
      | next :: rest => do
        let written ← unescape next
        let (text, after) ← lexString quote rest
        return (written :: text, after)
    else do
      let (text, after) ← lexString quote rest
      return (c :: text, after)

/-- The digits of a number, with a fraction if there is one, and what follows. -/
def lexNumber (s : List Char) : List Char × List Char :=
  let whole := s.span isDigit
  match whole.2 with
  | '.' :: rest =>
    let fraction := rest.span isDigit
    (whole.1 ++ '.' :: fraction.1, fraction.2)
  | rest => (whole.1, rest)

/-- The token that starts with `c`, and what follows it. -/
def lexToken (c : Char) (rest : List Char) : Except ParseError (Token × List Char) :=
  if c = '(' then .ok (.lparen, rest)
  else if c = ')' then .ok (.rparen, rest)
  else if c = ',' then .ok (.comma, rest)
  else if c = '.' then .ok (.dot, rest)
  else if c = '&' ∧ rest.head? = some '&' then .ok (.and, rest.tail)
  else if c = '|' ∧ rest.head? = some '|' then .ok (.or, rest.tail)
  else if c = '=' ∧ rest.head? = some '=' then .ok (.eq, rest.tail)
  else if c = '!' ∧ rest.head? = some '=' then .ok (.neq, rest.tail)
  else if c = '!' then .ok (.not, rest)
  else if c = '\'' ∨ c = '"' then do
    let (text, after) ← lexString c rest
    return (.string text, after)
  else if isDigit c then
    let number := lexNumber (c :: rest)
    .ok (.number number.1, number.2)
  else if c = '-' ∧ rest.head?.any isDigit then
    let number := lexNumber rest
    .ok (.number ('-' :: number.1), number.2)
  else if isIdentStart c then
    let name := (c :: rest).span isIdentPart
    .ok (.ident name.1, name.2)
  else .error (.unexpectedCharacter c)

/-- The loop of `lex` with `count` tokens behind it; every round consumes a
character, which is what the fuel counts. -/
def lexFrom : Nat → Nat → List Char → Except ParseError (List Token)
  | 0, _, _ => .ok []
  | _ + 1, _, [] => .ok []
  | fuel + 1, count, c :: rest =>
    if isBlank c then lexFrom fuel count rest
    else do
      let (token, after) ← lexToken c rest
      if maxTokens < count + 1 then throw .tooManyTokens
      let tokens ← lexFrom fuel (count + 1) after
      return token :: tokens

def lex (s : List Char) : Except ParseError (List Token) := lexFrom s.length 0 s

/-! ## Abstract syntax -/

/-- The builtin functions. -/
inductive Builtin where
  | success
  | failure
  | cancelled
  | always
  | contains
  | startsWith
  | endsWith
  | fromJSON
  | toJSON
  | hashFiles
  deriving DecidableEq, Repr

/-- The name a function is called by. -/
def Builtin.name : Builtin → List Char
  | .success => "success".toList
  | .failure => "failure".toList
  | .cancelled => "cancelled".toList
  | .always => "always".toList
  | .contains => "contains".toList
  | .startsWith => "startsWith".toList
  | .endsWith => "endsWith".toList
  | .fromJSON => "fromJSON".toList
  | .toJSON => "toJSON".toList
  | .hashFiles => "hashFiles".toList

/-- `builtinArities`. -/
def Builtin.arities : Builtin → List Nat
  | .success | .failure | .cancelled | .always => [0]
  | .contains | .startsWith | .endsWith => [2]
  | .fromJSON | .toJSON => [1]
  | .hashFiles => [1, 2, 3, 4, 5, 6, 7, 8]

/-- Every builtin function. -/
def builtins : List Builtin :=
  [.success, .failure, .cancelled, .always, .contains, .startsWith, .endsWith, .fromJSON, .toJSON,
    .hashFiles]

end Expr

/-- `Expr`: a parsed expression. -/
inductive Expr where
  | literal (val : List Char)
  | number (val : List Char)
  | path (root : List Char) (fields : List (List Char))
  | call (f : Expr.Builtin) (args : List Expr)
  | not (inner : Expr)
  | cmp (equal : Bool) (left right : Expr)
  | and (left right : Expr)
  | or (left right : Expr)
  deriving Repr

namespace Expr

open Text

/-! ## Path and call checks -/

def scalarContexts : List (List Char) :=
  ["status", "event", "branch", "ref", "sha", "repo"].map String.toList

def mapContexts : List (List Char) :=
  ["matrix", "inputs", "needs", "steps", "runner", "job", "env", "kiwi", "extra"].map String.toList

def fixedFields : List (List Char × List (List Char)) :=
  [("repo".toList, ["full_name".toList]), ("event".toList, ["name".toList]),
    ("git".toList, ["branch".toList, "ref".toList, "sha".toList])]

def validatePath (root : List Char) (fields : List (List Char)) : Except ParseError Unit :=
  if root ∈ mapContexts then
    if fields = [] then .error (.requiresField root) else .ok ()
  else
    match fixedFields.lookup root with
    | some allowed =>
      if fields = [] then
        if root ∈ scalarContexts then .ok () else .error (.requiresField root)
      else if fields.length = 1 ∧ ∀ field ∈ fields, field ∈ allowed then .ok ()
      else .error (.noField root fields)
    | none =>
      if root ∈ scalarContexts then
        if fields = [] then .ok () else .error (.noField root fields)
      else .error (.unknownContext root)

def validateCall (name : List Char) (args : Nat) : Except ParseError Builtin :=
  match builtins.find? fun f => f.name = name with
  | none => .error (.unknownFunction name)
  | some f => if args ∈ f.arities then .ok f else .error (.wrongArity name args)

/-! ## Parser -/

/-- What a parsing function returns: an expression and the remaining tokens. -/
abbrev Parsed := Except ParseError (Expr × List Token)

/-- The loop of `parseOr` and `parseAnd`: while the operator stands next, parse
another operand and combine. -/
def chainLoop (operator : Token) (combine : Expr → Expr → Expr) (operand : List Token → Parsed) :
    Nat → Expr → List Token → Parsed
  | fuel + 1, left, token :: rest =>
    if token = operator then do
      let (right, rest) ← operand rest
      chainLoop operator combine operand fuel (combine left right) rest
    else .ok (left, token :: rest)
  | _, left, tokens => .ok (left, tokens)

/-- `parseAnd`, over `parseUnary`. -/
def parseAnd (unary : List Token → Parsed) (tokens : List Token) : Parsed := do
  let (left, rest) ← unary tokens
  chainLoop .and .and unary rest.length left rest

/-- `parseOr`, over `parseUnary`. -/
def parseOr (unary : List Token → Parsed) (tokens : List Token) : Parsed := do
  let (left, rest) ← parseAnd unary tokens
  chainLoop .or .or (parseAnd unary) rest.length left rest

/-- The dotted fields of a path, and the remaining tokens. -/
def parseFields : List Token → Except ParseError (List (List Char) × List Token)
  | .dot :: .ident text :: rest => do
    let (fields, rest) ← parseFields rest
    return (text :: fields, rest)
  | .dot :: .number text :: rest => do
    let (fields, rest) ← parseFields rest
    return (text :: fields, rest)
  | .dot :: _ => .error .missingField
  | tokens => .ok ([], tokens)

/-- The arguments of a call after its opening parenthesis, through the closing
one; `nested` parses one argument. -/
def parseArgs (nested : List Token → Parsed) : Nat → List Token →
    Except ParseError (List Expr × List Token)
  | 0, _ => .error .missingParen
  | fuel + 1, tokens => do
    let (arg, rest) ← nested tokens
    match rest with
    | .comma :: rest =>
      let (args, rest) ← parseArgs nested fuel rest
      return (arg :: args, rest)
    | .rparen :: rest => return ([arg], rest)
    | _ => throw .missingParen

/-- `parseCall` after the opening parenthesis. -/
def parseCall (nested : List Token → Parsed) (name : List Char) (tokens : List Token) : Parsed := do
  let (args, rest) ←
    match tokens with
    | .rparen :: rest => pure ([], rest)
    | _ => parseArgs nested (tokens.length + 1) tokens
  let f ← validateCall name args.length
  return (.call f args, rest)

/-- `parseIdent` after its identifier. -/
def parseIdent (nested : List Token → Parsed) (root : List Char) : List Token → Parsed
  | .lparen :: rest => parseCall nested root rest
  | tokens =>
    if tokens.head? ≠ some .dot ∧ (root = "true".toList ∨ root = "false".toList) then
      .ok (.literal root, tokens)
    else do
      let (fields, rest) ← parseFields tokens
      validatePath root fields
      return (.path root fields, rest)

/-- `parsePrimary`; `nested` is `parseOr` one level deeper.  The depth was checked
by `parseUnary` at the same level. -/
def parsePrimary (nested : List Token → Parsed) : List Token → Parsed
  | .number text :: rest => .ok (.number text, rest)
  | .string text :: rest => .ok (.literal text, rest)
  | .lparen :: rest => do
    let (inner, rest) ← nested rest
    match rest with
    | .rparen :: rest => return (inner, rest)
    | _ => throw .missingParen
  | .ident root :: rest => parseIdent nested root rest
  | [] => .error .unexpectedEnd
  | token :: _ => .error (.unexpectedToken token)

def parseComparison (nested : List Token → Parsed) (tokens : List Token) : Parsed := do
  let (left, rest) ← parsePrimary nested tokens
  match rest with
  | .eq :: rest =>
    let (right, rest) ← parsePrimary nested rest
    return (.cmp true left right, rest)
  | .neq :: rest =>
    let (right, rest) ← parsePrimary nested rest
    return (.cmp false left right, rest)
  | _ => return (left, rest)

/-- `parseUnary` with the given number of levels left; a `!` is a level of its
own. -/
def parseUnary : Nat → List Token → Parsed
  | 0, _ => .error .tooDeep
  | levels + 1, .not :: rest => do
    let (inner, rest) ← parseUnary levels rest
    return (.not inner, rest)
  | levels + 1, tokens => parseComparison (parseOr (parseUnary levels)) tokens

def parse (s : List Char) : Except ParseError Expr := do
  let s := trimBy isSpace s
  if s = [] then throw .empty
  if maxExprBytes < (String.ofList s).utf8ByteSize then throw .tooLong
  let tokens ← lex s
  let (e, rest) ← parseOr (parseUnary (maxDepth + 1)) tokens
  match rest with
  | [] => return e
  | token :: _ => throw (.unexpectedToken token)

end Expr

end KiwiCI

/-!
Evaluation of expressions and the scan for interpolation holes:
`internal/expr/ast.go`, `eval.go` and the lookups of `contexts.go`.

`Eval` and `EvalBool` of the source call each other on the same node, so the model
computes both results of a node together: `outcome` by recursion on the syntax
tree, `eval` and `evalBool` its two components.  Decoding JSON and reading files
is left to a `Host`.
-/

namespace KiwiCI.Expr

open Text

structure Context where
  status : String := ""
  env : Table String String := .empty
  event : String := ""
  branch : String := ""
  ref : String := ""
  sha : String := ""
  repo : String := ""
  repoFull : String := ""
  matrix : Table String String := .empty
  inputs : Table String String := .empty
  needs : Table String String := .empty
  steps : Table String String := .empty
  runner : Table String String := .empty
  job : Table String String := .empty
  kiwi : Table String String := .empty
  extra : Table String String := .empty
  workspace : String := ""

/-- Why an evaluation fails. -/
inductive EvalError where
  | missingKey (key root : List Char)
  | unknownContext (root : List Char)
  | notBoolean (value : List Char)
  /-- A call the parser does not build. -/
  | badCall (f : Builtin)
  | workspaceNotSet
  /-- An error of the JSON decoder or of the file system. -/
  | host (detail : List Char)
  deriving DecidableEq, Repr

/-- The text of an evaluation error. -/
def EvalError.message : EvalError → List Char
  | .missingKey key root =>
    "key \"".toList ++ key ++ "\" not found in context \"".toList ++ root ++ "\"".toList
  | .unknownContext root => "unknown context \"".toList ++ root ++ "\"".toList
  | .notBoolean value => "cannot interpret \"".toList ++ value ++ "\" as a boolean".toList
  | .badCall f => "unknown function \"".toList ++ f.name ++ "\"".toList
  | .workspaceNotSet => "hashFiles: workspace is not set".toList
  | .host detail => detail

/-- What evaluation asks of its surroundings. -/
structure Host where
  /-- Decode a JSON text and write it back in compact form. -/
  compactJSON : Builtin → List Char → Except EvalError (List Char)
  openWorkspace : String → Except EvalError Unit
  hashFiles : String → List (List Char) → Except EvalError (List Char)

def mapLookup (m : Table String String) (root : List Char) (fields : List (List Char)) :
    Except EvalError (List Char) :=
  let key := ['.'].intercalate fields
  match m.get? (String.ofList key) with
  | some value => .ok value.toList
  | none => .error (.missingKey key root)

/-- The map a context name stands for. -/
def Context.map? (c : Context) (root : List Char) : Option (Table String String) :=
  [("matrix".toList, c.matrix), ("inputs".toList, c.inputs), ("needs".toList, c.needs),
    ("steps".toList, c.steps), ("runner".toList, c.runner), ("job".toList, c.job),
    ("env".toList, c.env), ("kiwi".toList, c.kiwi), ("extra".toList, c.extra)].lookup root

/-- The scalar a context name, or a fixed field of it, stands for. -/
def Context.scalar? (c : Context) (root : List Char) (fields : List (List Char)) : Option String :=
  [(("status".toList, []), c.status), (("event".toList, []), c.event),
    (("branch".toList, []), c.branch), (("ref".toList, []), c.ref), (("sha".toList, []), c.sha),
    (("repo".toList, []), c.repo), (("repo".toList, ["full_name".toList]), c.repoFull),
    (("event".toList, ["name".toList]), c.event), (("git".toList, ["branch".toList]), c.branch),
    (("git".toList, ["ref".toList]), c.ref), (("git".toList, ["sha".toList]), c.sha)].lookup
    (root, fields)

def lookup (c : Context) (root : List Char) (fields : List (List Char)) :
    Except EvalError (List Char) :=
  match c.scalar? root fields with
  | some value => .ok value.toList
  | none =>
    match c.map? root with
    | some m => mapLookup m root fields
    | none => .error (.unknownContext root)

def boolString (v : Bool) : List Char := if v then "true".toList else "false".toList

def truthy (v : List Char) : Except EvalError Bool :=
  if v = "true".toList then .ok true
  else if v = "false".toList ∨ v = [] then .ok false
  else .error (.notBoolean v)

/-- Both results of a node: `Eval` and `EvalBool`. -/
structure Outcome where
  text : Except EvalError (List Char)
  bool : Except EvalError Bool

/-- A node whose boolean is its text read as one. -/
def Outcome.ofText (text : Except EvalError (List Char)) : Outcome := ⟨text, text >>= truthy⟩

/-- A node whose text is its boolean written out. -/
def Outcome.ofBool (bool : Except EvalError Bool) : Outcome := ⟨boolString <$> bool, bool⟩

/-- The functions `isBool` lists. -/
def Builtin.isBool : Builtin → Bool
  | .success | .failure | .cancelled | .always | .contains | .startsWith | .endsWith => true
  | .fromJSON | .toJSON | .hashFiles => false

def isBool : Expr → Bool
  | .cmp .. | .and .. | .or .. | .not _ => true
  | .call f _ => f.isBool
  | .literal _ | .number _ | .path .. => false

/-- `boolValue` of a node with the given outcome. -/
def boolValue (e : Expr) (o : Outcome) : Except EvalError Bool :=
  if isBool e then o.bool else o.text >>= truthy

/-- `call.Eval` and `call.EvalBool`. -/
def callOutcome (host : Host) (c : Context) (f : Builtin) (args : List Outcome) : Outcome :=
  let relation (test : List Char → List Char → Bool) : Outcome :=
    match args with
    | [a, b] => .ofBool do return test (← a.text) (← b.text)
    | _ => .ofBool (.error (.badCall f))
  match f with
  | .success =>
    .ofBool (.ok (c.status ≠ "failure" && c.status ≠ "cancelled" && c.status ≠ "blocked"))
  | .failure => .ofBool (.ok (c.status = "failure" || c.status = "blocked"))
  | .cancelled => .ofBool (.ok (c.status = "cancelled"))
  | .always => .ofBool (.ok true)
  | .contains => relation fun a b => (cutList b a).isSome
  | .startsWith => relation fun a b => b.isPrefixOf a
  | .endsWith => relation fun a b => b.isSuffixOf a
  | .fromJSON | .toJSON =>
    match args with
    | [a] => .ofText (a.text >>= host.compactJSON f)
    | _ => .ofText (.error (.badCall f))
  | .hashFiles =>
    .ofText do
      if trimSpace c.workspace = "" then throw .workspaceNotSet
      host.openWorkspace c.workspace
      host.hashFiles c.workspace (← args.mapM Outcome.text)

mutual

/-- `Eval` and `EvalBool` of a node. -/
def outcome (host : Host) (c : Context) : Expr → Outcome
  | .literal val => .ofText (.ok val)
  | .number val => .ofText (.ok val)
  | .path root fields => .ofText (lookup c root fields)
  | .call f args => callOutcome host c f (outcomes host c args)
  | .not inner => .ofBool (Bool.not <$> (outcome host c inner).bool)
  | .cmp equal left right =>
    let l := outcome host c left
    let r := outcome host c right
    .ofBool
      (if isBool left || isBool right then do
        let a ← boolValue left l
        let b ← boolValue right r
        return if equal then a == b else a != b
      else do
        let a ← l.text
        let b ← r.text
        return if equal then a == b else a != b)
  | .and left right =>
    .ofBool do if ← (outcome host c left).bool then (outcome host c right).bool else return false
  | .or left right =>
    .ofBool do if ← (outcome host c left).bool then return true else (outcome host c right).bool

/-- The outcomes of a call's arguments. -/
def outcomes (host : Host) (c : Context) : List Expr → List Outcome
  | [] => []
  | e :: rest => outcome host c e :: outcomes host c rest

end

def eval (host : Host) (e : Expr) (c : Context) : Except EvalError (List Char) :=
  (outcome host c e).text

def evalBool (host : Host) (e : Expr) (c : Context) : Except EvalError Bool :=
  (outcome host c e).bool

def contextUnion (refs : List (List Char)) : List (List Char) :=
  refs.dedup.insertionSort (· ≤ ·)

mutual

/-- `Contexts`: the context names an expression reads. -/
def contexts : Expr → List (List Char)
  | .literal _ | .number _ => []
  | .path root _ => [root]
  | .call _ args => contextUnion (contextsAll args)
  | .not inner => contexts inner
  | .cmp _ left right | .and left right | .or left right =>
    contextUnion (contexts left ++ contexts right)

/-- The context names a list of expressions reads. -/
def contextsAll : List Expr → List (List Char)
  | [] => []
  | e :: rest => contexts e ++ contextsAll rest

end

theorem mem_contextUnion :
    r ∈ contextUnion refs ↔ r ∈ refs := by
  rw [contextUnion, List.mem_insertionSort, List.mem_dedup]

theorem forall_contextUnion {p : List Char → Prop} :
    (∀ r ∈ contextUnion (refs ++ refs'), p r) ↔ (∀ r ∈ refs, p r) ∧ ∀ r ∈ refs', p r := by
  simp only [mem_contextUnion, List.forall_mem_append]

mutual

/-- The functions an expression calls. -/
def calls : Expr → List Builtin
  | .literal _ | .number _ | .path .. => []
  | .call f args => f :: callsAll args
  | .not inner => calls inner
  | .cmp _ left right | .and left right | .or left right => calls left ++ calls right

/-- The functions a list of expressions calls. -/
def callsAll : List Expr → List Builtin
  | [] => []
  | e :: rest => calls e ++ callsAll rest

end

/-- Two contexts between which a function cannot tell: the status functions look at
the status and `hashFiles` at the workspace, without naming them. -/
def Builtin.Alike (c c' : Context) : Builtin → Prop
  | .success | .failure | .cancelled =>
    ∀ s ∈ ["failure", "cancelled", "blocked"], c.status = s ↔ c'.status = s
  | .hashFiles => c.workspace = c'.workspace
  | _ => True

theorem Builtin.alike_of_eq (status : c.status = c'.status)
    (workspace : c.workspace = c'.workspace) (f : Builtin) : f.Alike c c' := by
  cases f <;> simp [Builtin.Alike, status, workspace]

theorem callOutcome_alike (alike : f.Alike c c')
    (args : List Outcome) : callOutcome host c f args = callOutcome host c' f args := by
  cases f
  case success | failure | cancelled =>
    simp only [Builtin.Alike, List.forall_mem_cons] at alike
    simp only [callOutcome, ne_eq, alike.1, alike.2.1, alike.2.2.1]
  case hashFiles =>
    have workspace : c.workspace = c'.workspace := alike
    simp only [callOutcome, workspace]
  all_goals rfl

mutual

/-- An expression has the same outcome in contexts that agree on the names it reads
and between which the functions it calls cannot tell. -/
theorem outcome_congr : ∀ e : Expr, (∀ f ∈ e.calls, f.Alike c c') →
    (∀ r ∈ e.contexts, ∀ fields, lookup c r fields = lookup c' r fields) →
      outcome host c e = outcome host c' e
  | .literal _, _, _ => by simp only [outcome]
  | .number _, _, _ => by simp only [outcome]
  | .path root fields, _, agree => by
    simp only [outcome, agree root (by simp [contexts]) fields]
  | .call f args, alike, agree => by
    obtain ⟨own, inner⟩ := List.forall_mem_cons.mp alike
    have same : outcomes host c args = _ := outcomes_congr args inner fun r member =>
      agree r (by
        rw [contexts, mem_contextUnion]
        exact member)
    simp only [outcome, same, callOutcome_alike own]
  | .not inner, alike, agree => by
    simp only [outcome, outcome_congr inner alike agree]
  | .cmp _ left right, alike, agree
  | .and left right, alike, agree
  | .or left right, alike, agree => by
    obtain ⟨here, there⟩ := forall_contextUnion.mp agree
    obtain ⟨first, second⟩ := List.forall_mem_append.mp alike
    simp only [outcome, outcome_congr left first here, outcome_congr right second there]

theorem outcomes_congr : ∀ es : List Expr, (∀ f ∈ callsAll es, f.Alike c c') →
    (∀ r ∈ contextsAll es, ∀ fields, lookup c r fields = lookup c' r fields) →
      outcomes host c es = outcomes host c' es
  | [], _, _ => by simp only [outcomes]
  | e :: rest, alike, agree => by
    obtain ⟨here, there⟩ := List.forall_mem_append.mp agree
    obtain ⟨first, second⟩ := List.forall_mem_append.mp alike
    simp only [outcomes, outcome_congr e first here, outcomes_congr rest second there]

end

/-! ## Holes -/

/-- The body of a hole and what follows its closing braces; braces inside a string
literal do not close it. -/
def holeBody (quote : Option Char) (escaped : Bool) :
    List Char → Option (List Char × List Char)
  | [] => none
  | ch :: rest =>
    let inside (quote : Option Char) (escaped : Bool) :=
      (holeBody quote escaped rest).map fun (body, after) => (ch :: body, after)
    match quote with
    | some q =>
      if escaped then inside quote false
      else if ch = '\\' then inside quote true
      else if ch = q then inside none false
      else inside quote false
    | none =>
      if ch = '\'' ∨ ch = '"' then inside (some ch) false
      else if ch = '}' ∧ rest.head? = some '}' then some ([], rest.tail)
      else inside none false

/-- A hole, with the text between the hole before it and this one. -/
structure Hole where
  before : List Char
  body : List Char
  deriving DecidableEq, Repr

/-- The opening of a hole. -/
def opener : List Char := "$\x7b\x7b".toList

/-- The hole as it is written. -/
def Hole.text (h : Hole) : List Char := opener ++ h.body ++ "\x7d\x7d".toList

/-- The holes from here on and the text after the last one. -/
def holesFrom : Nat → List Char → Option (List Hole × List Char)
  | 0, s => some ([], s)
  | fuel + 1, s =>
    match cutList opener s with
    | none => some ([], s)
    | some (before, after) =>
      match holeBody none false after with
      | none => none
      | some (body, rest) =>
        (holesFrom fuel rest).map fun (holes, tail) => (⟨before, body⟩ :: holes, tail)

/-- `Holes`; `none` is the error of an unterminated hole. -/
def holes (s : List Char) : Option (List Hole × List Char) := holesFrom s.length s

theorem holeBody_eq (found : holeBody quote escaped s = some (body, after)) :
    s = body ++ "\x7d\x7d".toList ++ after := by
  induction s generalizing quote escaped body with
  | nil => cases found
  | cons ch rest ih =>
    have inside : ∀ quote escaped, (holeBody quote escaped rest).map
        (fun (body, after) => (ch :: body, after)) = some (body, after) →
        ch :: rest = body ++ "\x7d\x7d".toList ++ after := by
      intro quote escaped deeper
      obtain ⟨⟨inner, _⟩, there, shape⟩ := Option.map_eq_some_iff.mp deeper
      obtain ⟨rfl, rfl⟩ := Prod.mk.inj shape
      rw [ih there]
      rfl
    unfold holeBody at found
    cases quote with
    | some q =>
      dsimp only at found
      split_ifs at found <;> exact inside _ _ found
    | none =>
      dsimp only at found
      split_ifs at found with quoted closing
      · exact inside _ _ found
      · obtain ⟨rfl, rfl⟩ := Prod.mk.inj (Option.some.inj found)
        obtain ⟨rfl, second⟩ := closing
        cases rest with
        | nil => cases second
        | cons next rest =>
          obtain rfl := Option.some.inj second
          rfl
      · exact inside _ _ found

/-- The holes of a text and what stands between them make up the text. -/
theorem holesFrom_join {fuel : Nat} {s tail : List Char} {holes : List Hole}
    (found : holesFrom fuel s = some (holes, tail)) :
    (holes.flatMap fun h => h.before ++ h.text) ++ tail = s := by
  induction fuel generalizing s holes with
  | zero =>
    obtain ⟨rfl, rfl⟩ := Prod.mk.inj (Option.some.inj found)
    rfl
  | succ fuel ih =>
    unfold holesFrom at found
    split at found
    · obtain ⟨rfl, rfl⟩ := Prod.mk.inj (Option.some.inj found)
      rfl
    · rename_i before after opened
      split at found
      · cases found
      · rename_i body rest closed
        obtain ⟨⟨holes', _⟩, there, shape⟩ := Option.map_eq_some_iff.mp found
        obtain ⟨rfl, rfl⟩ := Prod.mk.inj shape
        rw [List.flatMap_cons, List.append_assoc, ih there, Hole.text, cutList_eq opened,
          holeBody_eq closed]
        simp

end KiwiCI.Expr
