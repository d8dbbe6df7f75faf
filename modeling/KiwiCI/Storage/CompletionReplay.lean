import KiwiCI.Lib.Delimited
import KiwiCI.Storage.CompletionDigest

/-!
A retried completion is recognised exactly when it reports what the receipt was written
from: the encodings under the digests tell payloads apart (`completionPreimage_inj`), and
the tags tell the versions apart.

SHA-256 has collisions, so its freedom of them is asked of the preimages at hand only.
-/

namespace KiwiCI.Storage

variable {preimage : ObservedRuntime → List UInt8} {same : ObservedRuntime → ObservedRuntime → Prop}
  {storedObserved : Option ObservedRuntime}

variable {m m' : List (String × String)} {o o' : ObservedRuntime}

open Sha256 List

/-! ## Payloads -/

/-- The length of a Go string is an `int`. -/
def Sized (s : String) : Prop := (utf8 s).length < 2 ^ 63

/-- A Go map: one entry for a key, each of a string. -/
structure MapFormed (m : List (String × String)) : Prop where
  keys : (m.map Prod.fst).Nodup
  size : m.length < 2 ^ 63
  texts : ∀ e ∈ m, Sized e.1 ∧ Sized e.2

/-- An observed runtime as Go can hold it. -/
structure RuntimeFormed (o : ObservedRuntime) : Prop where
  os : Sized o.os
  arch : Sized o.arch
  runtimeName : Sized o.runtimeName
  runtimeVersion : Sized o.runtimeVersion
  mainImage : Sized o.mainImage
  mainImageDigest : Sized o.mainImageDigest
  serviceImages : MapFormed o.serviceImages
  serviceImageDigests : MapFormed o.serviceImageDigests
  components : MapFormed o.components
  capturedAt : Sized o.capturedAt
  control : ∀ c, o.control = some c → Sized c.runtime ∧ Sized c.networkEnforced

/-- A completion payload as Go can hold it. -/
structure ResultFormed (r : CompletionResult) : Prop where
  errMsg : Sized r.errMsg
  outputs : MapFormed r.outputs
  observed : ∀ o, r.observed = some o → RuntimeFormed o

/-- Two runtimes agree in what the frozen v1 encoding binds: everything but the control
receipt.  Maps agree when they hold the same entries. -/
structure SameHistorical (o o' : ObservedRuntime) : Prop where
  os : o.os = o'.os
  arch : o.arch = o'.arch
  runtimeName : o.runtimeName = o'.runtimeName
  runtimeVersion : o.runtimeVersion = o'.runtimeVersion
  mainImage : o.mainImage = o'.mainImage
  mainImageDigest : o.mainImageDigest = o'.mainImageDigest
  serviceImages : o.serviceImages.Perm o'.serviceImages
  serviceImageDigests : o.serviceImageDigests.Perm o'.serviceImageDigests
  components : o.components.Perm o'.components
  capturedAt : o.capturedAt = o'.capturedAt

/-- Two runtimes agree in every field. -/
structure SameRuntime (o o' : ObservedRuntime) : Prop extends SameHistorical o o' where
  control : o.control = o'.control

/-- Two payloads agree, their runtimes up to `same`; an absent runtime only agrees with an
absent one. -/
structure SameResult (same : ObservedRuntime → ObservedRuntime → Prop) (r r' : CompletionResult) :
    Prop where
  status : r.status = r'.status
  errMsg : r.errMsg = r'.errMsg
  outputs : r.outputs.Perm r'.outputs
  observed : Option.Rel same r.observed r'.observed

/-! ## Preimages -/

/-- What `completionErrorDigest` hashes. -/
def errorPreimage (errMsg : String) : List UInt8 :=
  writeLenPrefixed "kiwi-ci/completion-result-error/v1" ++ writeLenPrefixed errMsg

/-- What `ObservedRuntimeDigestV1` hashes. -/
def runtimePreimageV1 (o : ObservedRuntime) : List UInt8 :=
  writeLenPrefixed "kiwi-ci/observed-runtime/v1" ++ observedRuntimeFields o

/-- What `ObservedRuntimeDigest` hashes. -/
def runtimePreimageV2 (o : ObservedRuntime) : List UInt8 :=
  writeLenPrefixed "kiwi-ci/observed-runtime/v2" ++ observedRuntimeFields o ++
    writeControl o.control

/-- What the digest of a payload hashes under v2. -/
def CompletionResult.preimageV2 (r : CompletionResult) : List UInt8 :=
  completionPreimage "kiwi-ci/completion-result/v2" observedRuntimeDigestV1 r.status r.errMsg
    r.outputs r.observed

/-- What the digest of a payload hashes under v3. -/
def CompletionResult.preimageV3 (r : CompletionResult) : List UInt8 :=
  completionPreimage "kiwi-ci/completion-result/v3" observedRuntimeDigest r.status r.errMsg
    r.outputs r.observed

/-- Everything that is hashed on the way to the digests of a payload. -/
def CompletionResult.preimages (r : CompletionResult) : List (List UInt8) :=
  [errorPreimage r.errMsg, r.preimageV2, r.preimageV3] ++
    (r.observed.map fun o => [runtimePreimageV1 o, runtimePreimageV2 o]).getD []

/-- SHA-256 has no collision among what is hashed for the two payloads. -/
def CollisionFree (r r' : CompletionResult) : Prop :=
  ∀ x ∈ r.preimages ++ r'.preimages, ∀ y ∈ r.preimages ++ r'.preimages, hexSum x = hexSum y → x = y

/-! ## Parts -/

theorem writeUint64_delimited : Delimited (· < 2 ^ 63) writeUint64 := by
  intro a b x y ha hb
  exact bigEndian_delimited 8 a b x y (ha.trans (by decide)) (hb.trans (by decide))

theorem writeLenPrefixed_delimited : Delimited Sized writeLenPrefixed :=
  writeUint64_delimited.prefixed utf8_injective

theorem writeLenPrefixed_inj (sized : Sized s) (sized' : Sized s')
    (same : writeLenPrefixed s ++ x = writeLenPrefixed s' ++ y) : s = s' ∧ x = y :=
  writeLenPrefixed_delimited s s' x y sized sized' same

theorem writeLenPrefixed_last (sized : Sized s) (sized' : Sized s')
    (same : writeLenPrefixed s = writeLenPrefixed s') : s = s' :=
  (writeLenPrefixed_inj sized sized' (congrArg (· ++ []) same)).1

theorem sortedMap_perm (m : List (String × String)) : (sortedMap m).Perm m :=
  perm_insertionSort _ m

theorem MapFormed.sorted (formed : MapFormed m) : MapFormed (sortedMap m) where
  keys := ((sortedMap_perm m).map Prod.fst).nodup_iff.mpr formed.keys
  size := (sortedMap_perm m).length_eq.trans_lt formed.size
  texts e there := formed.texts e ((sortedMap_perm m).mem_iff.mp there)

theorem sortedMap_eq_iff (formed : MapFormed m) : sortedMap m = sortedMap m' ↔ m.Perm m' := by
  constructor
  · intro same
    exact (sortedMap_perm m).symm.trans (same ▸ sortedMap_perm m')
  · intro perm
    have both := ((sortedMap_perm m).trans perm).trans (sortedMap_perm m').symm
    refine both.eq_of_pairwise ?_ (pairwise_insertionSort _ m)
      (pairwise_insertionSort _ m')
    intro a b ha hb below above
    have keys : a.1 = b.1 := String.le_antisymm below above
    exact inj_on_of_nodup_map formed.sorted.keys ha (both.mem_iff.mpr hb) keys

theorem writeStringMap_eq (m : List (String × String)) :
    writeStringMap m = writeUint64 (sortedMap m).length ++
      (sortedMap m).flatMap fun e => writeLenPrefixed e.1 ++ writeLenPrefixed e.2 := by
  rw [(sortedMap_perm m).length_eq]
  rfl

/-- A map that is written is read back up to the order of its entries. -/
theorem writeStringMap_inj (formed : MapFormed m)
    (formed' : MapFormed m') (same : writeStringMap m ++ x = writeStringMap m' ++ y) :
    m.Perm m' ∧ x = y := by
  rw [writeStringMap_eq, writeStringMap_eq] at same
  have entries := writeUint64_delimited.counted
    (writeLenPrefixed_delimited.pair writeLenPrefixed_delimited)
  obtain ⟨sorted, rest⟩ := entries _ _ x y ⟨formed.sorted.size, formed.sorted.texts⟩
    ⟨formed'.sorted.size, formed'.sorted.texts⟩ same
  exact ⟨(sortedMap_eq_iff formed).mp sorted, rest⟩

theorem writeStringMap_congr (formed : MapFormed m)
    (perm : m.Perm m') : writeStringMap m = writeStringMap m' := by
  rw [writeStringMap_eq, writeStringMap_eq, (sortedMap_eq_iff formed).mpr perm]

theorem boolToken_injective : Function.Injective boolToken := by
  intro a b
  cases a <;> cases b <;> decide

theorem Status.text_injective : Function.Injective Status.text := by
  intro a b
  cases a <;> cases b <;> decide +kernel

theorem sized_of_short (short : s.toList.length ≤ 100) : Sized s :=
  lt_of_le_of_lt ((length_utf8_le s).trans (Nat.mul_le_mul_left 4 short)) (by decide)

theorem sized_boolToken (b : Bool) : Sized (boolToken b) := by
  cases b <;> exact sized_of_short (by decide)

theorem length_hexSum (preimage : List UInt8) : (hexSum preimage).toList.length = 64 := by
  rw [hexSum, length_hex, length_digest]

theorem sized_hexSum (preimage : List UInt8) : Sized (hexSum preimage) :=
  sized_of_short (by rw [length_hexSum]; decide)

/-- The control receipt ends a preimage: an absent one is told from any that is there. -/
theorem writeControl_inj (formed : ∀ x, c = some x → Sized x.runtime ∧ Sized x.networkEnforced)
    (formed' : ∀ x, c' = some x → Sized x.runtime ∧ Sized x.networkEnforced)
    (same : writeControl c = writeControl c') : c = c' := by
  have empty : Sized "" := sized_of_short (by decide)
  -- what follows the runtime of a receipt is not empty
  have more (x : ExecutionControlReceipt) (sized : Sized x.runtime)
      (same : writeControl none = writeControl (some x)) : False := by
    simp only [writeControl, append_assoc] at same
    rw [← append_nil (writeLenPrefixed "")] at same
    obtain ⟨-, rest⟩ := writeLenPrefixed_inj empty sized same
    have length := congrArg length rest
    simp [writeLenPrefixed, writeUint64] at length
    omega
  cases c with
  | none =>
    cases c' with
    | none => rfl
    | some x => exact (more x (formed' x rfl).1 same).elim
  | some x =>
    cases c' with
    | none => exact (more x (formed x rfl).1 same.symm).elim
    | some y =>
      simp only [writeControl, append_assoc] at same
      obtain ⟨runtime, same⟩ := writeLenPrefixed_inj (formed x rfl).1 (formed' y rfl).1 same
      obtain ⟨started, same⟩ := writeLenPrefixed_inj (sized_boolToken _) (sized_boolToken _) same
      obtain ⟨network, same⟩ := writeLenPrefixed_inj (formed x rfl).2 (formed' y rfl).2 same
      obtain ⟨readOnly, same⟩ := writeLenPrefixed_inj (sized_boolToken _) (sized_boolToken _) same
      have quota := writeLenPrefixed_last (sized_boolToken _) (sized_boolToken _) same
      have started := boolToken_injective started
      have readOnly := boolToken_injective readOnly
      have quota := boolToken_injective quota
      cases x
      cases y
      simp_all

/-- The fields both runtime encodings share are read back. -/
theorem observedRuntimeFields_inj (formed : RuntimeFormed o) (formed' : RuntimeFormed o')
    (same : observedRuntimeFields o ++ x = observedRuntimeFields o' ++ y) :
    SameHistorical o o' ∧ x = y := by
  simp only [observedRuntimeFields, append_assoc] at same
  obtain ⟨os, same⟩ := writeLenPrefixed_inj formed.os formed'.os same
  obtain ⟨arch, same⟩ := writeLenPrefixed_inj formed.arch formed'.arch same
  obtain ⟨name, same⟩ := writeLenPrefixed_inj formed.runtimeName formed'.runtimeName same
  obtain ⟨version, same⟩ := writeLenPrefixed_inj formed.runtimeVersion formed'.runtimeVersion same
  obtain ⟨image, same⟩ := writeLenPrefixed_inj formed.mainImage formed'.mainImage same
  obtain ⟨digest, same⟩ := writeLenPrefixed_inj formed.mainImageDigest formed'.mainImageDigest same
  obtain ⟨images, same⟩ := writeStringMap_inj formed.serviceImages formed'.serviceImages same
  obtain ⟨digests, same⟩ := writeStringMap_inj formed.serviceImageDigests
    formed'.serviceImageDigests same
  obtain ⟨components, same⟩ := writeStringMap_inj formed.components formed'.components same
  obtain ⟨captured, same⟩ := writeLenPrefixed_inj formed.capturedAt formed'.capturedAt same
  exact ⟨⟨os, arch, name, version, image, digest, images, digests, components, captured⟩, same⟩

theorem SameHistorical.fields (formed : RuntimeFormed o)
    (same : SameHistorical o o') : observedRuntimeFields o = observedRuntimeFields o' := by
  rw [observedRuntimeFields, observedRuntimeFields, same.os, same.arch, same.runtimeName,
    same.runtimeVersion, same.mainImage, same.mainImageDigest,
    writeStringMap_congr formed.serviceImages same.serviceImages,
    writeStringMap_congr formed.serviceImageDigests same.serviceImageDigests,
    writeStringMap_congr formed.components same.components, same.capturedAt]

/-! ## Whole payloads -/

/-- The last part of a preimage: the literal marker, or the tagged digest. -/
def runtimeText (runtimeDigest : ObservedRuntime → String) : Option ObservedRuntime → String
  | none => "nil"
  | some o => "sha256:" ++ runtimeDigest o

theorem completionPreimage_eq (tag : String) (runtimeDigest : ObservedRuntime → String)
    (r : CompletionResult) :
    completionPreimage tag runtimeDigest r.status r.errMsg r.outputs r.observed =
      writeLenPrefixed tag ++ (writeLenPrefixed r.status.text ++
        (writeLenPrefixed (hexSum (errorPreimage r.errMsg)) ++ (writeStringMap r.outputs ++
          writeLenPrefixed (runtimeText runtimeDigest r.observed)))) := by
  unfold completionPreimage runtimeText
  simp only [append_assoc]
  cases r.observed <;> rfl

theorem sized_runtimeText (o : Option ObservedRuntime) :
    Sized (runtimeText (fun o => hexSum (preimage o)) o) := by
  cases o with
  | none =>
    have short : "nil".toList.length ≤ 100 := by decide
    exact sized_of_short short
  | some o =>
    refine sized_of_short ?_
    rw [runtimeText, String.toList_append, length_append, length_hexSum]
    decide

theorem sized_statusText (status : Status) : Sized status.text := by
  cases status <;> exact sized_of_short (by decide)

theorem runtimeText_inj {o o' : Option ObservedRuntime}
    (same : runtimeText (fun o => hexSum (preimage o)) o =
      runtimeText (fun o => hexSum (preimage o)) o') :
    Option.Rel (fun o o' => hexSum (preimage o) = hexSum (preimage o')) o o' := by
  have marked (o : ObservedRuntime) : "nil" ≠ "sha256:" ++ hexSum (preimage o) := by
    intro equal
    have length := congrArg (fun s => s.toList.length) equal
    simp only [String.toList_append, length_append, length_hexSum] at length
    revert length
    decide
  cases o with
  | none =>
    cases o' with
    | none => exact .none
    | some o' => exact absurd same (marked o')
  | some o =>
    cases o' with
    | none => exact absurd same.symm (marked o)
    | some o' => exact .some (String.append_right_inj _ |>.mp same)

/-- A preimage tells its tag and its payload, the error and the runtime by their digests. -/
theorem completionPreimage_inj (preimage preimage' : ObservedRuntime → List UInt8)
    (sized : Sized tag) (sized' : Sized tag')
    (formed : ResultFormed r) (formed' : ResultFormed r')
    (same : completionPreimage tag (fun o => hexSum (preimage o)) r.status r.errMsg r.outputs
        r.observed =
      completionPreimage tag' (fun o => hexSum (preimage' o)) r'.status r'.errMsg r'.outputs
        r'.observed) :
    tag = tag' ∧ r.status = r'.status ∧
      hexSum (errorPreimage r.errMsg) = hexSum (errorPreimage r'.errMsg) ∧
      r.outputs.Perm r'.outputs ∧
      runtimeText (fun o => hexSum (preimage o)) r.observed =
        runtimeText (fun o => hexSum (preimage' o)) r'.observed := by
  rw [completionPreimage_eq, completionPreimage_eq] at same
  obtain ⟨tags, same⟩ := writeLenPrefixed_inj sized sized' same
  obtain ⟨statuses, same⟩ := writeLenPrefixed_inj (sized_statusText _) (sized_statusText _) same
  obtain ⟨errors, same⟩ := writeLenPrefixed_inj (sized_hexSum _) (sized_hexSum _) same
  obtain ⟨outputs, same⟩ := writeStringMap_inj formed.outputs formed'.outputs same
  have runtimes := writeLenPrefixed_last (sized_runtimeText _) (sized_runtimeText _) same
  exact ⟨tags, Status.text_injective statuses, errors, outputs, runtimes⟩

theorem errorPreimage_inj (sized : Sized e) (sized' : Sized e')
    (same : errorPreimage e = errorPreimage e') : e = e' := by
  rw [errorPreimage, errorPreimage, append_cancel_left_eq] at same
  exact writeLenPrefixed_last sized sized' same

theorem runtimePreimageV1_inj (formed : RuntimeFormed o)
    (formed' : RuntimeFormed o') (same : runtimePreimageV1 o = runtimePreimageV1 o') :
    SameHistorical o o' := by
  rw [runtimePreimageV1, runtimePreimageV1, append_cancel_left_eq] at same
  exact (observedRuntimeFields_inj formed formed' (congrArg (· ++ []) same)).1

theorem runtimePreimageV2_inj (formed : RuntimeFormed o)
    (formed' : RuntimeFormed o') (same : runtimePreimageV2 o = runtimePreimageV2 o') :
    SameRuntime o o' := by
  rw [runtimePreimageV2, runtimePreimageV2, append_assoc, append_assoc,
    append_cancel_left_eq] at same
  obtain ⟨historical, controls⟩ := observedRuntimeFields_inj formed formed' same
  exact ⟨historical, writeControl_inj formed.control formed'.control controls⟩

section Replay

variable {r r' : CompletionResult}

theorem error_mem (r : CompletionResult) : errorPreimage r.errMsg ∈ r.preimages := by
  simp [CompletionResult.preimages]

theorem preimageV2_mem (r : CompletionResult) : r.preimageV2 ∈ r.preimages := by
  simp [CompletionResult.preimages]

theorem preimageV3_mem (r : CompletionResult) : r.preimageV3 ∈ r.preimages := by
  simp [CompletionResult.preimages]

theorem runtime_mem (held : r.observed = some o) :
    runtimePreimageV1 o ∈ r.preimages ∧ runtimePreimageV2 o ∈ r.preimages := by
  simp [CompletionResult.preimages, held]

theorem CollisionFree.eq (free : CollisionFree r r') (left : x ∈ r.preimages)
    (right : y ∈ r'.preimages) (same : hexSum x = hexSum y) : x = y :=
  free x (mem_append.mpr (.inl left)) y (mem_append.mpr (.inr right)) same

/-- Where the digests of two payloads agree, so do the payloads, up to what the runtime
encoding binds. -/
theorem sameResult_of_preimage (preimage : ObservedRuntime → List UInt8) {tag : String}
    (sized : Sized tag) (formed : ResultFormed r) (formed' : ResultFormed r')
    (free : CollisionFree r r')
    (hashed : ∀ q : CompletionResult, ∀ o, q.observed = some o → preimage o ∈ q.preimages)
    (inj : ∀ o o', RuntimeFormed o → RuntimeFormed o' → preimage o = preimage o' → same o o')
    (equal : completionPreimage tag (fun o => hexSum (preimage o)) r.status r.errMsg r.outputs
        r.observed =
      completionPreimage tag (fun o => hexSum (preimage o)) r'.status r'.errMsg r'.outputs
        r'.observed) : SameResult same r r' := by
  obtain ⟨-, status, errors, outputs, runtimes⟩ :=
    completionPreimage_inj preimage preimage sized sized formed formed' equal
  refine ⟨status, errorPreimage_inj formed.errMsg formed'.errMsg
    (free.eq (error_mem r) (error_mem r') errors), outputs, ?_⟩
  have related := runtimeText_inj runtimes
  generalize held : r.observed = o at related ⊢
  generalize held' : r'.observed = o' at related ⊢
  cases related with
  | none => exact .none
  | some digests =>
    exact .some (inj _ _ (formed.observed _ held) (formed'.observed _ held')
      (free.eq (hashed r _ held) (hashed r' _ held') digests))

theorem preimage_of_sameResult {digest : ObservedRuntime → String} (formed : ResultFormed r)
    (congr : ∀ o o', RuntimeFormed o → same o o' → digest o = digest o')
    (agree : SameResult same r r') :
    completionPreimage tag digest r.status r.errMsg r.outputs r.observed =
      completionPreimage tag digest r'.status r'.errMsg r'.outputs r'.observed := by
  rw [completionPreimage_eq, completionPreimage_eq, agree.status, agree.errMsg,
    writeStringMap_congr formed.outputs agree.outputs]
  have runtimes : runtimeText digest r.observed = runtimeText digest r'.observed := by
    have related := agree.observed
    generalize held : r.observed = o at related ⊢
    generalize r'.observed = o' at related ⊢
    cases related with
    | none => rfl
    | some agree => rw [runtimeText, runtimeText, congr _ _ (formed.observed _ held) agree]
  rw [runtimes]

theorem hexSum_preimageV3 (r : CompletionResult) :
    r.digestUnder completionResultHashVersionV3 = hexSum r.preimageV3 := rfl

theorem hexSum_preimageV2 (r : CompletionResult) :
    r.digestUnder completionResultHashVersionV2 = hexSum r.preimageV2 := rfl

section Digests

variable (formed : ResultFormed r) (formed' : ResultFormed r') (free : CollisionFree r r')

include formed formed' free

/-- Under v3 digests agree exactly for payloads that agree in every field. -/
theorem digestV3_eq_iff :
    hexSum r.preimageV3 = hexSum r'.preimageV3 ↔ SameResult SameRuntime r r' := by
  constructor
  · intro same
    exact sameResult_of_preimage runtimePreimageV2 (sized_of_short (by decide)) formed formed' free
      (fun _ _ held => (runtime_mem held).2)
      (fun _ _ formed formed' equal => runtimePreimageV2_inj formed formed' equal)
      (free.eq (preimageV3_mem r) (preimageV3_mem r') same)
  · intro agree
    refine congrArg hexSum (preimage_of_sameResult formed (fun o o' formed same => ?_) agree)
    rw [observedRuntimeDigest, observedRuntimeDigest, same.toSameHistorical.fields formed,
      same.control]

/-- Under v2 they do for payloads that agree in all but the control receipt. -/
theorem digestV2_eq_iff :
    hexSum r.preimageV2 = hexSum r'.preimageV2 ↔ SameResult SameHistorical r r' := by
  constructor
  · intro same
    exact sameResult_of_preimage runtimePreimageV1 (sized_of_short (by decide)) formed formed' free
      (fun _ _ held => (runtime_mem held).1)
      (fun _ _ formed formed' equal => runtimePreimageV1_inj formed formed' equal)
      (free.eq (preimageV2_mem r) (preimageV2_mem r') same)
  · intro agree
    refine congrArg hexSum (preimage_of_sameResult formed (fun o o' formed same => ?_) agree)
    rw [observedRuntimeDigestV1, observedRuntimeDigestV1, same.fields formed]

theorem digestV2_ne_digestV3 : hexSum r.preimageV2 ≠ hexSum r'.preimageV3 := by
  intro same
  have equal := free.eq (preimageV2_mem r) (preimageV3_mem r') same
  have tags := (completionPreimage_inj runtimePreimageV1 runtimePreimageV2
    (sized_of_short (by decide)) (sized_of_short (by decide)) formed formed' equal).1
  exact absurd tags (by decide)

end Digests

/-- A completion whose request hash is the current digest of its payload replays a v3
receipt exactly when it reports what the receipt was written from, and a v2 receipt exactly
when it does in all the frozen encoding binds. -/
theorem replay_exact {stored request : CompletionResult} (formed : ResultFormed stored)
    (formed' : ResultFormed request) (free : CollisionFree stored request) (requestVersion : Int)
    (storedObserved : Option ObservedRuntime) :
    (completionReceiptReplayMatches (stored.digestUnder completionResultHashVersionV3)
        completionResultHashVersionV3 (request.digestUnder completionResultHashVersionV3)
        requestVersion request storedObserved = true ↔
      SameResult SameRuntime stored request) ∧
    (completionReceiptReplayMatches (stored.digestUnder completionResultHashVersionV2)
        completionResultHashVersionV2 (request.digestUnder completionResultHashVersionV3)
        requestVersion request storedObserved = true ↔
      SameResult SameHistorical stored request) := by
  rw [← digestV3_eq_iff formed formed' free, ← digestV2_eq_iff formed formed' free]
  constructor
  · unfold completionReceiptReplayMatches
    simp only [if_true, Bool.or_eq_true, Bool.and_eq_true, decide_eq_true_eq]
    rw [hexSum_preimageV3, hexSum_preimageV3]
    exact ⟨fun found => found.elim And.left id, .inr⟩
  · have other : completionResultHashVersionV2 ≠ completionResultHashVersionV3 := by decide
    unfold completionReceiptReplayMatches
    simp only [other, if_false, if_true, Bool.or_eq_true, Bool.and_eq_true, decide_eq_true_eq]
    rw [hexSum_preimageV2, hexSum_preimageV3, hexSum_preimageV2]
    constructor
    · rintro (⟨same, -⟩ | same)
      · exact absurd same (digestV2_ne_digestV3 formed formed' free)
      · exact same
    · exact .inr

end Replay

/-- A completion that reports nothing but its success. -/
def plainSuccess : CompletionResult := { status := .success }

/-- A retry of it replays the receipt the first left. -/
theorem plain_success_replays :
    completionReceiptReplayMatches (plainSuccess.digestUnder completionResultHashVersionV3)
      completionResultHashVersionV3 (plainSuccess.digestUnder completionResultHashVersionV3) 3
      plainSuccess none = true := by
  have formed : ResultFormed plainSuccess := {
    errMsg := sized_of_short (by decide)
    outputs := ⟨.nil, by decide, fun _ none => by cases none⟩
    observed := fun _ none => by cases none }
  have digests : (plainSuccess.preimages.map hexSum).Nodup := by decide +kernel
  have free : CollisionFree plainSuccess plainSuccess := by
    intro x there y there' same
    exact inj_on_of_nodup_map digests ((mem_append.mp there).elim id id)
      ((mem_append.mp there').elim id id) same
  exact (replay_exact formed formed free 3 none).1.mpr ⟨rfl, rfl, .refl _, .none⟩

end KiwiCI.Storage
