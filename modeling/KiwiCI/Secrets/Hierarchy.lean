import KiwiCI.Model

/-!
The secret hierarchy: `Resolve`, which gives out a value, and `Explain`, which reports on it,
both from the decision of `decide`.

The decision does not look at the value of its winner.  `Resolve` does, so a winner without a
value is refused by the one and available to the other.
-/

namespace KiwiCI.Secrets

open List

inductive Scope where
  | inst
  | organization
  | team
  | repository
  | environment
  | job
  | step
  | other (name : String)
deriving DecidableEq

def Scope.text : Scope → String
  | .inst => "instance"
  | .organization => "organization"
  | .team => "team"
  | .repository => "repository"
  | .environment => "environment"
  | .job => "job"
  | .step => "step"
  | .other name => name

def hierarchyOrder : List Scope :=
  [.step, .job, .environment, .repository, .team, .organization, .inst]

structure SecretRef where
  name : String
  value : String
  scope : Scope
  owner : String := ""
  branch : String := ""
  tag : String := ""
  event : String := ""
  fork : Option Bool := none
  trusted : Option Bool := none
  expiresAt : Time := 0
  provider : String := ""

/-- The scope, and the owner where there is one. -/
def SecretRef.label (r : SecretRef) : String :=
  r.scope.text ++ if r.owner = "" then "" else " " ++ r.owner

/-- The request; `clock` is what `time.Now` gives. -/
structure Policy where
  repository : String := ""
  team : String := ""
  org : String := ""
  environment : String := ""
  job : String := ""
  step : String := ""
  branch : String := ""
  tag : String := ""
  event : String := ""
  fork : Bool := false
  trusted : Bool := false
  now : Time := 0
  clock : Time := 0

/-- The owner a ref of the scope must name. -/
def Policy.owner (p : Policy) : Scope → Option String
  | .repository => some p.repository
  | .team => some p.team
  | .organization => some p.org
  | .environment => some p.environment
  | .job => some p.job
  | .step => some p.step
  | .inst | .other _ => none

/-- `matches`. -/
def SecretRef.admits (r : SecretRef) (p : Policy) : Bool :=
  let now := if p.now = 0 then p.clock else p.now
  (r.trusted == some false || p.trusted) && (r.branch == "" || r.branch == p.branch) &&
    (r.tag == "" || r.tag == p.tag) && (r.event == "" || r.event == p.event) &&
    r.fork.all (· == p.fork) && (r.expiresAt == 0 || now ≤ r.expiresAt) &&
    (p.owner r.scope).all (fun owner => r.owner != "" && r.owner == owner)

structure Decision where
  winner : Option SecretRef := none
  source : String := ""
  overridden : String := ""
  ambiguous : Bool := false
  consulted : List String

/-- The report; `expires` is kept as a time. -/
structure Explanation where
  name : String
  source : String := ""
  overriddenBy : String := ""
  available : Bool
  reason : String
  expires : Time := 0
  provider : String := ""
  consulted : List String

structure Hierarchy where
  refs : List SecretRef

namespace Hierarchy

variable (h : Hierarchy) (name : String) (p : Policy)

def byScope (scope : Scope) : List SecretRef :=
  h.refs.filter fun r => r.name == name && r.scope == scope

def hits (scope : Scope) : List SecretRef :=
  (h.byScope name scope).filter (·.admits p)

/-- The first match at the most specific scope that has one, and the other matches there. -/
def winning : Option (SecretRef × List SecretRef) :=
  hierarchyOrder.findSome? fun scope =>
    let hits := h.hits name p scope
    hits.head?.map (·, hits.tail)

def decide : Decision :=
  let outward := hierarchyOrder.reverse.flatMap (h.byScope name)
  let consulted := outward.map (·.label)
  match outward.find? (·.admits p), h.winning name p with
  | some definition, some (hit, others) =>
    if others.isEmpty then
      { winner := some hit, source := definition.label, overridden := hit.label, consulted }
    else { winner := some hit, source := definition.label, ambiguous := true, consulted }
  | some definition, none => { source := definition.label, consulted }
  | none, _ => { consulted }

def reasonUnavailable : String :=
  if h.refs.all (·.name != name) then "no secret named " ++ name
  else if !p.trusted then "untrusted execution is refused every secret (trust floor)"
  else if p.fork then "fork execution is refused this secret"
  else "no ref at any scope matches this policy"

def reasonAvailable (r : SecretRef) : String :=
  let named (what value : String) := if value = "" then [] else [what ++ value]
  let parts := named "branch=" r.branch ++ named "tag=" r.tag ++ named "event=" r.event ++
    (if r.trusted = some true then ["trusted only"] else []) ++
    if r.fork = some false then ["non-fork only"] else []
  if parts = [] then "unrestricted at this scope" else ", ".intercalate parts

def explain : Explanation :=
  let d := h.decide name p
  let refused (reason : String) : Explanation :=
    { name, available := false, reason, consulted := d.consulted }
  if d.ambiguous then
    refused s!"ambiguous at scope {d.source} (2 matching refs): fail closed"
  else match d.winner with
    | none => refused (h.reasonUnavailable name p)
    | some r =>
      { name, source := d.source, overriddenBy := d.overridden, available := true
        reason := reasonAvailable r, expires := r.expiresAt, provider := r.provider
        consulted := d.consulted }

/-- `quote` is the `%q` of the messages. -/
def resolve (quote : String → String) : Except String String :=
  let d := h.decide name p
  if d.ambiguous then .error s!"secret {quote name} is ambiguous at scope {d.source}: fail closed"
  else match d.winner with
    | none => .error s!"secret {quote name} unavailable: {h.reasonUnavailable name p}"
    | some r =>
      if r.value = "" then .error s!"secret {quote name} at {d.source} has no value"
      else .ok r.value

/-- `r` is the only match at its scope, and no scope before it has a match. -/
def Wins (r : SecretRef) : Prop :=
  ∃ inner outer, hierarchyOrder = inner ++ r.scope :: outer ∧ h.hits name p r.scope = [r] ∧
    ∀ scope ∈ inner, h.hits name p scope = []

/-- What `Resolve` and `Explain` owe each other, and what a value that is given out was. -/
structure Agrees (quote : String → String) : Prop where
  available : (∃ v, h.resolve name p quote = .ok v) ↔ (h.explain name p).available = true
  order : ∀ h' : Hierarchy, h'.refs.Perm h.refs →
    (∀ v, h'.resolve name p quote = .ok v ↔ h.resolve name p quote = .ok v) ∧
      (h'.explain name p).available = (h.explain name p).available
  winner : ∀ v, h.resolve name p quote = .ok v → ∃ r, h.Wins name p r ∧ r.value = v ∧
    (p.trusted = false → r.trusted = some false)

variable {h name p}

theorem mem_hits {r : SecretRef} : r ∈ h.hits name p scope ↔
    (r ∈ h.refs ∧ r.name = name ∧ r.scope = scope) ∧ r.admits p = true := by
  simp only [hits, byScope, mem_filter, Bool.and_eq_true, beq_iff_eq]

theorem winning_eq_some : h.winning name p = some (hit, others) ↔ ∃ inner scope outer,
    hierarchyOrder = inner ++ scope :: outer ∧ h.hits name p scope = hit :: others ∧
      ∀ scope ∈ inner, h.hits name p scope = [] := by
  have at' : ∀ l : List SecretRef, l.head?.map (·, l.tail) = some (hit, others) ↔
      l = hit :: others := by
    intro l
    cases l <;> simp
  simp [winning, findSome?_eq_some_iff, at']

/-- The definition is found wherever some scope has a match. -/
theorem find_definition (won : h.winning name p = some (hit, others)) :
    ∃ definition, (hierarchyOrder.reverse.flatMap (h.byScope name)).find? (·.admits p) =
      some definition := by
  obtain ⟨inner, scope, outer, order, found, -⟩ := winning_eq_some.mp won
  have held := mem_filter.mp (found ▸ mem_cons_self : hit ∈ h.hits name p scope)
  rw [← Option.isSome_iff_exists, find?_isSome]
  exact ⟨hit, mem_flatMap.mpr ⟨scope, by simp [order], held.1⟩, held.2⟩

theorem wins_iff : h.Wins name p r ↔ h.winning name p = some (r, []) := by
  rw [winning_eq_some]
  constructor
  · rintro ⟨inner, outer, won⟩
    exact ⟨inner, r.scope, outer, won⟩
  · rintro ⟨inner, scope, outer, order, found, before⟩
    obtain ⟨⟨-, -, rfl⟩, -⟩ := mem_hits.mp (found ▸ mem_singleton_self r)
    exact ⟨inner, outer, order, found, before⟩

/-- The decision is unambiguous exactly for a ref that wins. -/
theorem decide_winner : (h.decide name p).ambiguous = false ∧ (h.decide name p).winner = some r ↔
    h.Wins name p r := by
  rw [wins_iff]
  unfold decide
  dsimp only
  cases won : h.winning name p with
  | none => split <;> simp_all
  | some hit =>
    obtain ⟨definition, found⟩ := find_definition won
    obtain ⟨hit, others⟩ := hit
    cases others <;> simp [found]

theorem resolve_ok_iff : h.resolve name p quote = .ok v ↔
    ∃ r, h.Wins name p r ∧ r.value = v ∧ r.value ≠ "" := by
  simp only [← decide_winner]
  unfold resolve
  generalize h.decide name p = d
  obtain ⟨winner, _, _, ambiguous, _⟩ := d
  cases ambiguous <;> cases winner <;> simp
  split_ifs <;> simp_all

theorem explain_available_iff :
    (h.explain name p).available = true ↔ ∃ r, h.Wins name p r := by
  simp only [← decide_winner]
  unfold explain
  generalize h.decide name p = d
  obtain ⟨winner, _, _, ambiguous, _⟩ := d
  cases ambiguous <;> cases winner <;> simp

theorem wins_perm {h' : Hierarchy} (same : h'.refs.Perm h.refs) :
    h'.Wins name p r ↔ h.Wins name p r := by
  have hits : ∀ scope, (h'.hits name p scope).Perm (h.hits name p scope) :=
    fun scope => (same.filter _).filter _
  have none : ∀ scope, h'.hits name p scope = [] ↔ h.hits name p scope = [] :=
    fun scope => ⟨fun e => (e ▸ hits scope).nil_eq.symm, fun e => (e ▸ hits scope).eq_nil⟩
  have one : h'.hits name p r.scope = [r] ↔ h.hits name p r.scope = [r] :=
    ⟨fun e => (singleton_perm.mp (e ▸ hits r.scope)).symm,
      fun e => perm_singleton.mp (e ▸ hits r.scope)⟩
  simp only [Wins, none, one]

/-- Resolution and explanation agree exactly where a ref that wins has a value. -/
theorem agrees_iff (quote : String → String) (h : Hierarchy) (name : String) (p : Policy) :
    h.Agrees name p quote ↔ ∀ r, h.Wins name p r → r.value ≠ "" := by
  constructor
  · intro agrees r won empty
    obtain ⟨v, ran⟩ := agrees.available.mpr (explain_available_iff.mpr ⟨r, won⟩)
    obtain ⟨r', won', -, some⟩ := resolve_ok_iff.mp ran
    rw [wins_iff] at won won'
    cases won.symm.trans won'
    exact some empty
  · intro valued
    refine ⟨?_, fun h' same => ⟨fun v => ?_, ?_⟩, fun v ran => ?_⟩
    · rw [explain_available_iff]
      constructor
      · rintro ⟨v, ran⟩
        obtain ⟨r, won, -⟩ := resolve_ok_iff.mp ran
        exact ⟨r, won⟩
      · rintro ⟨r, won⟩
        exact ⟨_, resolve_ok_iff.mpr ⟨r, won, rfl, valued r won⟩⟩
    · simp only [resolve_ok_iff, wins_perm same]
    · rw [Bool.eq_iff_iff]
      simp only [explain_available_iff, wins_perm same]
    · obtain ⟨r, won, value, -⟩ := resolve_ok_iff.mp ran
      refine ⟨r, won, value, fun untrusted => ?_⟩
      obtain ⟨inner, outer, -, found, -⟩ := won
      obtain ⟨-, admitted⟩ := mem_hits.mp (found ▸ mem_singleton_self r)
      simp only [SecretRef.admits, untrusted, Bool.or_false, Bool.and_eq_true, beq_iff_eq]
        at admitted
      exact admitted.1.1.1.1.1.1

def emptySecret : Hierarchy := ⟨[{ name := "TOKEN", value := "", scope := .inst }]⟩

/-- A winner without a value is available and does not resolve. -/
theorem empty_secret_available :
    (emptySecret.explain "TOKEN" { trusted := true }).available = true ∧
      emptySecret.resolve "TOKEN" { trusted := true } id =
        .error "secret TOKEN at instance has no value" :=
  ⟨rfl, rfl⟩

end Hierarchy

end KiwiCI.Secrets
