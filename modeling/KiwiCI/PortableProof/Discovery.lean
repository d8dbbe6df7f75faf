import KiwiCI.Lib.Codec
import KiwiCI.Lib.Delimited

/-!
The public-key discovery document of `internal/portableproof/sign.go` and the chain a
consumer follows from one signed publication to the next.

The root signature and the chaining hash both cover the document with its
`PredecessorHash` blanked, so neither says which predecessor the holder of the root key
meant.  `accepted_chained_iff` says for which accepted documents the chain is the one
that was signed.

A time is its RFC 3339 text, as JSON carries it.  Ed25519, base64 and the reading of a
time are parameters.
-/

namespace KiwiCI.PortableProof

variable {d d' : PublicKeyDiscovery} {p : Platform} {rootPub : List UInt8} {next : DiscoveryState}

structure PublicKeyDoc where
  keyID : String := ""
  algorithm : String := ""
  publicKey : String := ""
  status : String := ""
  createdAt : String := "0001-01-01T00:00:00Z"
  supersededByKeyID : String := ""
  note : String := ""
  deriving DecidableEq, Repr

/-- `PublicKeyDiscovery`; the keys are `none` where the slice is nil. -/
structure PublicKeyDiscovery where
  schemaVersion : Int := 0
  sequence : Nat := 0
  expiresAt : String := "0001-01-01T00:00:00Z"
  predecessorHash : String := ""
  issuedAt : String := "0001-01-01T00:00:00Z"
  keys : Option (List PublicKeyDoc) := none
  deriving DecidableEq, Repr

structure SignedDiscovery where
  discovery : PublicKeyDiscovery
  rootKeyID : String
  signature : String

structure DiscoveryState where
  sequence : Nat := 0
  predecessorHash : String := ""
  deriving DecidableEq, Repr

def discoverySchemaVersion : Int := 1

/-- `ed25519.PublicKeySize`. -/
def publicKeySize : Nat := 32

/-! ## What is signed and hashed -/

/-- An unsigned number. -/
def sequenceWriter : Writer Nat where
  empty n := n = 0
  write n := .num n
  norm := id
  pins _ _ same := Int.ofNat.inj (Json.num.inj same)
  pinsEmpty _ _ none none' := (of_decide_eq_true none).trans (of_decide_eq_true none').symm

/-- The JSON of `PublicKeyDoc`. -/
def docWriter : Writer PublicKeyDoc :=
  .struct {} id
    [.req "key_id" Codec.string.toWriter (·.keyID) fun v d => { d with keyID := v },
      .req "algorithm" Codec.string.toWriter (·.algorithm) fun v d => { d with algorithm := v },
      .req "public_key" Codec.string.toWriter (·.publicKey) fun v d => { d with publicKey := v },
      .req "status" Codec.string.toWriter (·.status) fun v d => { d with status := v },
      .req "created_at" Codec.string.toWriter (·.createdAt) fun v d => { d with createdAt := v },
      .opt "superseded_by_key_id" Codec.string.toWriter (·.supersededByKeyID)
        fun v d => { d with supersededByKeyID := v },
      .opt "note" Codec.string.toWriter (·.note) fun v d => { d with note := v }]

/-- The JSON of `PublicKeyDiscovery`. -/
def discoveryWriter : Writer PublicKeyDiscovery :=
  .struct {} (fun d => { d with keys := d.keys.map id })
    [.req "schema_version" Codec.int.toWriter (·.schemaVersion)
        fun v d => { d with schemaVersion := v },
      .req "sequence" sequenceWriter (·.sequence) fun v d => { d with sequence := v },
      .req "expires_at" Codec.string.toWriter (·.expiresAt) fun v d => { d with expiresAt := v },
      .opt "predecessor_hash" Codec.string.toWriter (·.predecessorHash)
        fun v d => { d with predecessorHash := v },
      .req "issued_at" Codec.string.toWriter (·.issuedAt) fun v d => { d with issuedAt := v },
      .req "keys" docWriter.plainList.nullable (·.keys) fun v d => { d with keys := v }]

/-- A document without its chain link. -/
def PublicKeyDiscovery.blank (d : PublicKeyDiscovery) : PublicKeyDiscovery :=
  { d with predecessorHash := "" }

def discoveryCanonicalBytes (d : PublicKeyDiscovery) : List UInt8 :=
  Sha256.utf8 (String.ofList (discoveryWriter.write d.blank).render)

def discoveryHash (d : PublicKeyDiscovery) : String :=
  Sha256.hex (Sha256.digest (discoveryCanonicalBytes d))

def discoverySignPayload (raw : List UInt8) : List UInt8 :=
  Sha256.utf8 "kiwi-ci/portable-proof-discovery/v1\n" ++ raw

theorem discoveryWriter_norm (d : PublicKeyDiscovery) : discoveryWriter.norm d = d := by
  change { d with keys := d.keys.map id } = d
  rw [Option.map_id_fun, id]

/-- The canonical bytes pin the document up to its chain link. -/
theorem blank_of_canonicalBytes
    (same : discoveryCanonicalBytes d = discoveryCanonicalBytes d') : d.blank = d'.blank := by
  have texts := Sha256.utf8_injective same
  have written := Json.render_injective (String.ofList_injective texts)
  have pinned := discoveryWriter.pins _ _ written
  rwa [discoveryWriter_norm, discoveryWriter_norm] at pinned

theorem canonicalBytes_of_blank (same : d.blank = d'.blank) :
    discoveryCanonicalBytes d = discoveryCanonicalBytes d' := by
  rw [discoveryCanonicalBytes, discoveryCanonicalBytes, same]

theorem discoveryHash_ne_empty (d : PublicKeyDiscovery) : discoveryHash d ≠ "" := by
  intro empty
  have length := congrArg (fun s => s.toList.length) empty
  simp only [discoveryHash, Sha256.length_hex, Sha256.length_digest] at length
  cases length

/-! ## Verification -/

/-- The error values of the package that discovery uses. -/
inductive ErrorKind where
  | schema
  | signature
  | key
  | rollback
  deriving DecidableEq, Repr

/-- A wrapped error and its text. -/
structure DiscoveryError where
  kind : ErrorKind
  text : String
  deriving DecidableEq, Repr

/-- What verification takes from the Go runtime: `base64.StdEncoding.DecodeString`,
`ed25519.Verify`, the instant of a time counted from the zero time, and the time in UTC
as RFC 3339. -/
structure Platform where
  decodeString : String → Except String (List UInt8)
  verify : List UInt8 → List UInt8 → List UInt8 → Bool
  instant : String → Int
  formatUTC : String → String

/-- The checks of `VerifySignedDiscovery` before the anti-rollback ones. -/
def Platform.authentic (p : Platform) (signed : SignedDiscovery) (rootPub : List UInt8)
    (now : Int) : Except DiscoveryError Unit := do
  let d := signed.discovery
  require (d.schemaVersion = discoverySchemaVersion)
    ⟨.schema, "discovery schema " ++ toString d.schemaVersion⟩
  require (signed.rootKeyID ≠ "" ∧ signed.signature ≠ "")
    ⟨.signature, "signed discovery is missing root key id or signature"⟩
  require (rootPub.length = publicKeySize) ⟨.key, "root key is not Ed25519"⟩
  let raw := discoveryCanonicalBytes d
  let sig ← (p.decodeString signed.signature).mapError fun err =>
    ⟨.signature, "discovery signature is not base64: " ++ err⟩
  require (p.verify rootPub (discoverySignPayload raw) sig = true)
    ⟨.signature, "discovery root signature"⟩
  require (p.instant d.expiresAt = 0 ∨ now ≤ p.instant d.expiresAt)
    ⟨.schema, "discovery expired at " ++ p.formatUTC d.expiresAt⟩

/-- The anti-rollback checks of `VerifySignedDiscovery`, and the state it returns. -/
def advance (d : PublicKeyDiscovery) (prev : DiscoveryState) :
    Except DiscoveryError DiscoveryState := do
  let sequence := "discovery sequence " ++ toString d.sequence
  require (1 ≤ d.sequence)
    ⟨.schema, "discovery sequence must be >= 1 (0 means no accepted metadata)"⟩
  require (prev.sequence ≤ d.sequence) ⟨.rollback, sequence ++ " < seen " ++ toString prev.sequence⟩
  if 0 < prev.sequence ∧ d.sequence = prev.sequence then
    require (prev.predecessorHash = discoveryHash d)
      ⟨.rollback, sequence ++ " does not match the accepted document"⟩
    pure prev
  else
    require (0 < prev.sequence → d.predecessorHash ≠ "")
      ⟨.rollback, sequence ++ " omits the required predecessor hash"⟩
    require (0 < prev.sequence → d.predecessorHash = prev.predecessorHash)
      ⟨.rollback, sequence ++ " predecessor hash does not chain to the accepted document"⟩
    pure { sequence := d.sequence, predecessorHash := discoveryHash d }

def Platform.verifySignedDiscovery (p : Platform) (signed : SignedDiscovery)
    (rootPub : List UInt8) (prev : DiscoveryState) (now : Int) :
    Except DiscoveryError DiscoveryState := do
  p.authentic signed rootPub now
  advance signed.discovery prev

theorem Platform.authentic_ok_iff :
    p.authentic signed rootPub now = .ok () ↔
      signed.discovery.schemaVersion = discoverySchemaVersion ∧
      (signed.rootKeyID ≠ "" ∧ signed.signature ≠ "") ∧ rootPub.length = publicKeySize ∧
      (∃ sig, p.decodeString signed.signature = .ok sig ∧ p.verify rootPub
          (discoverySignPayload (discoveryCanonicalBytes signed.discovery)) sig = true) ∧
      (p.instant signed.discovery.expiresAt = 0 ∨ now ≤ p.instant signed.discovery.expiresAt) := by
  unfold Platform.authentic
  dsimp only
  rw [check_ok_iff, require_ok_iff, check_ok_iff, require_ok_iff, check_ok_iff, require_ok_iff,
    bind_ok_iff]
  simp only [mapError_ok_iff, check_ok_iff, require_ok_iff]
  refine and_congr_right fun _ => and_congr_right fun _ => and_congr_right fun _ => ?_
  constructor
  · rintro ⟨sig, decoded, verified, fresh⟩
    exact ⟨⟨sig, decoded, verified⟩, fresh⟩
  · rintro ⟨⟨sig, decoded, verified⟩, fresh⟩
    exact ⟨sig, decoded, verified, fresh⟩

/-- What the anti-rollback checks let through: the accepted document over again, up to
its chain link, or a later one that names the accepted one. -/
theorem advance_ok_iff : advance d prev = .ok next ↔
      1 ≤ d.sequence ∧ prev.sequence ≤ d.sequence ∧
      ((0 < prev.sequence ∧ d.sequence = prev.sequence ∧
          prev.predecessorHash = discoveryHash d ∧ prev = next) ∨
        (¬ (0 < prev.sequence ∧ d.sequence = prev.sequence) ∧
          (0 < prev.sequence → d.predecessorHash ≠ "") ∧
          (0 < prev.sequence → d.predecessorHash = prev.predecessorHash) ∧
          { sequence := d.sequence, predecessorHash := discoveryHash d } = next)) := by
  unfold advance
  dsimp only
  rw [check_ok_iff, require_ok_iff, check_ok_iff, require_ok_iff]
  refine and_congr_right fun _ => and_congr_right fun _ => ?_
  split <;> rename_i again
  · rw [check_ok_iff, require_ok_iff, pure_ok_iff]
    simp [again]
  · rw [check_ok_iff, require_ok_iff, check_ok_iff, require_ok_iff, pure_ok_iff]
    simp [← and_assoc, again]

theorem Platform.verifySignedDiscovery_ok_iff
    :
    p.verifySignedDiscovery signed rootPub prev now = .ok next ↔
      p.authentic signed rootPub now = .ok () ∧ advance signed.discovery prev = .ok next := by
  rw [Platform.verifySignedDiscovery, check_ok_iff]

/-! ## A consumer -/

/-- A call, as somebody in between may have arranged it. -/
structure Fetch where
  signed : SignedDiscovery
  now : Int

/-- The state a consumer stores, beside the document it accepted last. -/
structure Consumer where
  state : DiscoveryState := {}
  last : Option PublicKeyDiscovery := none

/-- A call stores the returned state, or leaves the old one. -/
def Consumer.step (p : Platform) (rootPub : List UInt8) (f : Fetch) (c : Consumer) : Consumer :=
  match p.verifySignedDiscovery f.signed rootPub c.state f.now with
  | .ok state => { state := state, last := some f.signed.discovery }
  | .error _ => c

/-- The stored state is that of the accepted document. -/
structure Consumer.Follows (c : Consumer) : Prop where
  fresh : c.last = none → c.state = {}
  accepted : ∀ d, c.last = some d → 1 ≤ d.sequence ∧ c.state.sequence = d.sequence ∧
    c.state.predecessorHash = discoveryHash d

theorem Consumer.Follows.step
    (follows : c.Follows) (f : Fetch) : (Consumer.step p rootPub f c).Follows := by
  unfold Consumer.step
  split <;> rename_i result
  · rename_i next
    obtain ⟨first, _, again | later⟩ :=
      advance_ok_iff.mp (Platform.verifySignedDiscovery_ok_iff.mp result).2
    · obtain ⟨_, same, hash, rfl⟩ := again
      refine ⟨by simp, ?_⟩
      rintro d ⟨⟩
      exact ⟨first, same.symm, hash⟩
    · obtain ⟨_, _, _, rfl⟩ := later
      refine ⟨by simp, ?_⟩
      rintro d ⟨⟩
      exact ⟨first, rfl, rfl⟩
  · exact follows

theorem Consumer.follows_run (p : Platform) (rootPub : List UInt8) (fetches : List Fetch) :
    (run (Consumer.step p rootPub) fetches {}).Follows :=
  run_invariant (I := Consumer.Follows) (fun f _ follows => follows.step f) fetches
    ⟨fun _ => rfl, fun _ none => by cases none⟩

/-- The document continues the chain of the one accepted before: it is the same over
again, or later, signed with every field it has, and it names the accepted one. -/
def Consumer.Chained (signed : PublicKeyDiscovery → Prop) (c : Consumer)
    (d : PublicKeyDiscovery) : Prop :=
  ∀ d₀, c.last = some d₀ → d = d₀ ∨
    (d₀.sequence < d.sequence ∧ signed d ∧ d.predecessorHash = discoveryHash d₀)

/-- The chain link is as it was: a document with the other fields of the accepted one has
its link too, and one with the other fields of a signed one is signed with its link. -/
def Consumer.LinkKept (signed : PublicKeyDiscovery → Prop) (c : Consumer)
    (d : PublicKeyDiscovery) : Prop :=
  ∀ d₀, c.last = some d₀ →
    if d.blank = d₀.blank then d.predecessorHash = d₀.predecessorHash
    else (∃ d', signed d' ∧ d'.blank = d.blank) → signed d

/-- Only what the holder of the root key signed verifies under it. -/
def Platform.Unforgeable (p : Platform) (rootPub : List UInt8)
    (signed : PublicKeyDiscovery → Prop) : Prop :=
  ∀ payload sig, p.verify rootPub payload sig = true →
    ∃ d, signed d ∧ payload = discoverySignPayload (discoveryCanonicalBytes d)

/-- SHA-256 has no collision between the documents. -/
def CollisionFree (d d' : PublicKeyDiscovery) : Prop :=
  discoveryHash d = discoveryHash d' → discoveryCanonicalBytes d = discoveryCanonicalBytes d'

theorem eq_of_blank (fields : d.blank = d'.blank)
    (link : d.predecessorHash = d'.predecessorHash) : d = d' := by
  cases d
  cases d'
  simp_all [PublicKeyDiscovery.blank]

theorem Platform.signed_of_authentic
    {signed : PublicKeyDiscovery → Prop} (unforgeable : p.Unforgeable rootPub signed)
    {f : Fetch} (authentic : p.authentic f.signed rootPub f.now = .ok ()) :
    ∃ d, signed d ∧ d.blank = f.signed.discovery.blank := by
  obtain ⟨_, _, _, ⟨sig, _, verified⟩, _⟩ := Platform.authentic_ok_iff.mp authentic
  obtain ⟨d, held, same⟩ := unforgeable _ sig verified
  exact ⟨d, held, (blank_of_canonicalBytes (List.append_cancel_left same)).symm⟩

/-- **When the chain that is followed is the chain that was signed.**  Whatever calls came
before, an accepted document is the accepted one over again or a later one that the
holder of the root key signed with every field it has, its link to the accepted one
included, exactly when its link was not changed on the way. -/
theorem accepted_chained_iff (p : Platform) (rootPub : List UInt8)
    (signed : PublicKeyDiscovery → Prop) (unforgeable : p.Unforgeable rootPub signed)
    (fetches : List Fetch) (f : Fetch) (next : DiscoveryState)
    (accepted : p.verifySignedDiscovery f.signed rootPub
      (run (Consumer.step p rootPub) fetches {}).state f.now = .ok next)
    (collisionFree : ∀ d₀, (run (Consumer.step p rootPub) fetches {}).last = some d₀ →
      d₀.sequence = f.signed.discovery.sequence → CollisionFree d₀ f.signed.discovery) :
    (run (Consumer.step p rootPub) fetches {}).Chained signed f.signed.discovery ↔
      (run (Consumer.step p rootPub) fetches {}).LinkKept signed f.signed.discovery := by
  have follows := Consumer.follows_run p rootPub fetches
  generalize run (Consumer.step p rootPub) fetches {} = c at *
  obtain ⟨authentic, advanced⟩ := Platform.verifySignedDiscovery_ok_iff.mp accepted
  have original := Platform.signed_of_authentic unforgeable authentic
  refine forall_congr' fun d₀ => forall_congr' fun held => ?_
  obtain ⟨first, sequence, hash⟩ := follows.accepted d₀ held
  have known : 0 < c.state.sequence := by omega
  obtain ⟨_, _, ⟨_, again, same, _⟩ | ⟨apart, _, link, _⟩⟩ := advance_ok_iff.mp advanced
  · -- the accepted sequence number over again
    have free := collisionFree d₀ held (sequence.symm.trans again.symm)
    have fields : f.signed.discovery.blank = d₀.blank :=
      (blank_of_canonicalBytes (free (hash.symm.trans same))).symm
    rw [if_pos fields]
    constructor
    · rintro (rfl | ⟨later, _⟩)
      · rfl
      · omega
    · intro kept
      exact .inl (eq_of_blank fields kept)
  · -- a later one
    have differ : f.signed.discovery.sequence ≠ d₀.sequence := fun same =>
      apart ⟨known, same.trans sequence.symm⟩
    have fields : f.signed.discovery.blank ≠ d₀.blank := by
      intro same
      have sequences := congrArg PublicKeyDiscovery.sequence same
      exact differ sequences
    rw [if_neg fields]
    constructor
    · rintro (rfl | ⟨_, held', _⟩)
      · exact absurd rfl differ
      · exact fun _ => held'
    · intro kept
      exact .inr ⟨by omega, kept original, (link known).trans hash⟩

namespace Root

/-- The first publication. -/
def genesis : PublicKeyDiscovery := { schemaVersion := 1, sequence := 1 }

/-- A second one, chained to the first. -/
def second : PublicKeyDiscovery :=
  { schemaVersion := 1, sequence := 2, predecessorHash := discoveryHash genesis }

/-- A third one that was signed without a link. -/
def unlinked : PublicKeyDiscovery := { schemaVersion := 1, sequence := 3 }

/-- The same with a link to the first added on the way. -/
def relinked : PublicKeyDiscovery := { unlinked with predecessorHash := discoveryHash genesis }

/-- What the holder of the root key signed. -/
def Signed (d : PublicKeyDiscovery) : Prop := d = genesis ∨ d = second ∨ d = unlinked

/-- A platform where the signatures of those documents verify. -/
def platform : Platform where
  decodeString := fun _ => .ok []
  verify := fun _ payload _ =>
    [genesis, second, unlinked].any fun d =>
      payload = discoverySignPayload (discoveryCanonicalBytes d)
  instant := fun _ => 0
  formatUTC := id

def key : List UInt8 := List.replicate 32 0

def fetch (d : PublicKeyDiscovery) : Fetch := ⟨⟨d, "root", "c2ln"⟩, 0⟩

theorem platform_verify (rootPub payload sig : List UInt8) :
    platform.verify rootPub payload sig = [genesis, second, unlinked].any fun d =>
      payload = discoverySignPayload (discoveryCanonicalBytes d) := rfl

theorem relinked_blank : relinked.blank = unlinked.blank := by
  rw [relinked, PublicKeyDiscovery.blank, PublicKeyDiscovery.blank]

theorem unforgeable : platform.Unforgeable key Signed := by
  intro payload sig verified
  rw [platform_verify] at verified
  obtain ⟨d, member, same⟩ := List.any_eq_true.mp verified
  refine ⟨d, ?_, of_decide_eq_true same⟩
  simpa [Signed] using member

theorem authentic (held : Signed d') (fields : d.blank = d'.blank) (schema : d.schemaVersion = 1) :
    platform.authentic (fetch d).signed key (fetch d).now = .ok () := by
  have verified : ([genesis, second, unlinked].any fun s =>
      discoverySignPayload (discoveryCanonicalBytes d) =
        discoverySignPayload (discoveryCanonicalBytes s)) = true := by
    rw [canonicalBytes_of_blank fields]
    exact List.any_eq_true.mpr ⟨d', by simpa [Signed] using held, decide_eq_true rfl⟩
  refine Platform.authentic_ok_iff.mpr ⟨schema, ⟨by simp [fetch], by simp [fetch]⟩, by decide,
    ⟨[], rfl, ?_⟩, .inl rfl⟩
  rw [platform_verify]
  exact verified

theorem state_genesis : run (Consumer.step platform key) [fetch genesis] {} =
    { state := { sequence := 1, predecessorHash := discoveryHash genesis }
      last := some genesis } := by
  have advanced : advance genesis {} =
      .ok { sequence := 1, predecessorHash := discoveryHash genesis } :=
    advance_ok_iff.mpr ⟨by decide, by decide, .inr ⟨by decide, by decide, by decide, rfl⟩⟩
  have accepted := Platform.verifySignedDiscovery_ok_iff.mpr
    ⟨authentic (.inl rfl) rfl (rfl : genesis.schemaVersion = 1), advanced⟩
  rw [run_cons, run_nil]
  rw [Consumer.step, accepted]
  rfl

/-- A later document that names the first is accepted after it. -/
theorem accepted_after_genesis (held : Signed d')
    (fields : d.blank = d'.blank) (schema : d.schemaVersion = 1) (later : 1 < d.sequence)
    (link : d.predecessorHash = discoveryHash genesis) :
    platform.verifySignedDiscovery (fetch d).signed key
      (run (Consumer.step platform key) [fetch genesis] {}).state (fetch d).now =
      .ok { sequence := d.sequence, predecessorHash := discoveryHash d } := by
  rw [state_genesis]
  refine Platform.verifySignedDiscovery_ok_iff.mpr ⟨authentic held fields schema, ?_⟩
  refine advance_ok_iff.mpr ⟨later.le, later.le, .inr ⟨fun again => ?_, fun _ => ?_, fun _ => link,
    rfl⟩⟩
  · exact later.ne' again.2
  · exact link ▸ discoveryHash_ne_empty genesis

end Root

open Root in
/-- The second publication is accepted after the first, as it was signed. -/
theorem second_chained :
    (run (Consumer.step platform key) [fetch genesis] {}).Chained Signed second := by
  have last : ∀ d₀, (run (Consumer.step platform key) [fetch genesis] {}).last = some d₀ →
      d₀ = genesis := by
    intro d₀ held
    rw [state_genesis] at held
    exact (Option.some.inj held).symm
  refine (accepted_chained_iff platform key Signed unforgeable [fetch genesis] (fetch second) _
    (accepted_after_genesis (.inr (.inl rfl)) rfl rfl (show 1 < 2 by decide) rfl)
    fun d₀ held same => ?_).mpr fun d₀ held => ?_
  · rw [last d₀ held] at same
    cases same
  · rw [last d₀ held, if_neg]
    · exact fun _ => .inr (.inl rfl)
    · intro same
      cases congrArg PublicKeyDiscovery.sequence same

open Root in
/-- A document that was signed without a link is accepted with one. -/
theorem added_link_accepted :
    platform.verifySignedDiscovery (fetch relinked).signed key
        (run (Consumer.step platform key) [fetch genesis] {}).state (fetch relinked).now =
        .ok { sequence := 3, predecessorHash := discoveryHash relinked } ∧
      (run (Consumer.step platform key) [fetch genesis] {}).last = some genesis ∧
      ¬ Signed relinked := by
  refine ⟨accepted_after_genesis (.inr (.inr rfl)) relinked_blank rfl
    (show 1 < 3 by decide) rfl, ?_, ?_⟩
  · rw [state_genesis]
  · rintro (same | same | same)
    · cases congrArg PublicKeyDiscovery.sequence same
    · cases congrArg PublicKeyDiscovery.sequence same
    · have link : relinked.predecessorHash = unlinked.predecessorHash := by rw [same]
      simp only [relinked, unlinked] at link
      exact discoveryHash_ne_empty genesis link

end KiwiCI.PortableProof
