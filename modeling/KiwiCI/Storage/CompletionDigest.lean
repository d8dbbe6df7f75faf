import KiwiCI.Lib.Sha256
import KiwiCI.Model
import Mathlib.Data.List.Sort

/-!
The digest a completion is recognised by: `completion_digest.go`.

Three versions are in use.  A stored receipt carries the version it was written
under, and a retried completion is hashed again under that version, so a receipt
of an older binary still matches.  Maps are association lists with one entry per
key; an unset map and an empty one are the same value.
-/

namespace KiwiCI.Storage

open Sha256

def completionResultHashVersionV2 : Int := 2

def completionResultHashVersionV3 : Int := 3

/-! ## Encodings -/

def writeUint64 (n : Nat) : List UInt8 := bigEndian 8 n

def writeLenPrefixed (s : String) : List UInt8 := writeUint64 (utf8 s).length ++ utf8 s

/-- A string map in key order. -/
def sortedMap (m : List (String × String)) : List (String × String) :=
  m.insertionSort fun a b => a.1 ≤ b.1

def writeStringMap (m : List (String × String)) : List UInt8 :=
  writeUint64 m.length ++
    (sortedMap m).flatMap fun (k, v) => writeLenPrefixed k ++ writeLenPrefixed v

def boolToken (b : Bool) : String := if b then "1" else "0"

/-- The four hexadecimal digits of a `\u` escape. -/
def unicodeEscape (c : Char) : List Char :=
  '\\' :: 'u' :: [c.toNat / 4096, c.toNat / 256 % 16, c.toNat / 16 % 16, c.toNat % 16].map hexDigit

/-- One character of a JSON string as `encoding/json` writes it. -/
def jsonChar (c : Char) : List Char :=
  if c = '"' || c = '\\' then ['\\', c]
  else if c = '\n' then ['\\', 'n']
  else if c = '\r' then ['\\', 'r']
  else if c = '\t' then ['\\', 't']
  else if c.toNat = 8 then ['\\', 'b']
  else if c.toNat = 12 then ['\\', 'f']
  else if c.toNat < 0x20 || c = '<' || c = '>' || c = '&' || c.toNat = 0x2028 || c.toNat = 0x2029
  then unicodeEscape c
  else [c]

/-- A JSON string. -/
def jsonString (s : String) : List Char := '"' :: s.toList.flatMap jsonChar ++ ['"']

/-- `json.Marshal` of a string map. -/
def jsonStringMap (m : List (String × String)) : String :=
  if m = [] then "null"
  else
    let entries := (sortedMap m).map fun (k, v) => jsonString k ++ ':' :: jsonString v
    String.ofList ('\x7b' :: (List.intercalate [','] entries) ++ ['\x7d'])

/-! ## Digests -/

/-- The hexadecimal SHA-256 of a preimage. -/
def hexSum (preimage : List UInt8) : String := hex (digest preimage)

/-- `CompletionResultDigestV1`: status, error and outputs only. -/
def completionResultDigestV1 (status : Status) (errMsg : String)
    (outputs : List (String × String)) : String :=
  hexSum (utf8 status.text ++ 0 :: utf8 errMsg ++ 0 :: utf8 (jsonStringMap outputs))

def completionErrorDigest (errMsg : String) : String :=
  hexSum (writeLenPrefixed "kiwi-ci/completion-result-error/v1" ++ writeLenPrefixed errMsg)

/-- The fields both observed-runtime encodings share. -/
def observedRuntimeFields (o : ObservedRuntime) : List UInt8 :=
  writeLenPrefixed o.os ++ writeLenPrefixed o.arch ++ writeLenPrefixed o.runtimeName ++
    writeLenPrefixed o.runtimeVersion ++ writeLenPrefixed o.mainImage ++
    writeLenPrefixed o.mainImageDigest ++ writeStringMap o.serviceImages ++
    writeStringMap o.serviceImageDigests ++ writeStringMap o.components ++
    writeLenPrefixed o.capturedAt

/-- `ObservedRuntimeDigestV1`: without the control receipt. -/
def observedRuntimeDigestV1 (o : ObservedRuntime) : String :=
  hexSum (writeLenPrefixed "kiwi-ci/observed-runtime/v1" ++ observedRuntimeFields o)

/-- The control receipt inside `ObservedRuntimeDigest`. -/
def writeControl : Option ExecutionControlReceipt → List UInt8
  | none => writeLenPrefixed ""
  | some c =>
    writeLenPrefixed c.runtime ++ writeLenPrefixed (boolToken c.sandboxStarted) ++
      writeLenPrefixed c.networkEnforced ++ writeLenPrefixed (boolToken c.rootFilesystemReadOnly) ++
      writeLenPrefixed (boolToken c.workspaceQuotaEnforced)

/-- `ObservedRuntimeDigest`: with the control receipt. -/
def observedRuntimeDigest (o : ObservedRuntime) : String :=
  hexSum (writeLenPrefixed "kiwi-ci/observed-runtime/v2" ++ observedRuntimeFields o ++
    writeControl o.control)

/-- The preimage `CompletionResultDigestV2` and `CompletionResultDigestV3` share
up to their tag and the nested runtime digest. -/
def completionPreimage (tag : String) (runtimeDigest : ObservedRuntime → String) (status : Status)
    (errMsg : String) (outputs : List (String × String)) (observed : Option ObservedRuntime) :
    List UInt8 :=
  writeLenPrefixed tag ++ writeLenPrefixed status.text ++
    writeLenPrefixed (completionErrorDigest errMsg) ++ writeStringMap outputs ++
    writeLenPrefixed (match observed with
      | none => "nil"
      | some o => "sha256:" ++ runtimeDigest o)

def completionResultDigestV2 (status : Status) (errMsg : String) (outputs : List (String × String))
    (observed : Option ObservedRuntime) : String :=
  hexSum (completionPreimage "kiwi-ci/completion-result/v2" observedRuntimeDigestV1 status errMsg
    outputs observed)

def completionResultDigestV3 (status : Status) (errMsg : String) (outputs : List (String × String))
    (observed : Option ObservedRuntime) : String :=
  hexSum (completionPreimage "kiwi-ci/completion-result/v3" observedRuntimeDigest status errMsg
    outputs observed)

/-! ## Replays -/

def completionLegacyRuntimeEvidenceCompatible (request stored : Option ObservedRuntime) : Bool :=
  match request, stored with
  | none, _ => true
  | some _, none => false
  | some r, some s => observedRuntimeDigestV1 r = observedRuntimeDigestV1 s

/-- What a completion reports. -/
structure CompletionResult where
  status : Status
  errMsg : String := ""
  outputs : List (String × String) := []
  observed : Option ObservedRuntime := none
  deriving DecidableEq, Repr

/-- The digest of a result under a receipt's version: `CompletionReceiptReplayMatches`
re-hashes the request with it. -/
def CompletionResult.digestUnder (r : CompletionResult) (version : Int) : String :=
  if version = completionResultHashVersionV3 then
    completionResultDigestV3 r.status r.errMsg r.outputs r.observed
  else if version = completionResultHashVersionV2 then
    completionResultDigestV2 r.status r.errMsg r.outputs r.observed
  else completionResultDigestV1 r.status r.errMsg r.outputs

def completionReceiptReplayMatches (storedHash : String) (storedVersion : Int)
    (requestHash : String) (requestVersion : Int) (r : CompletionResult)
    (storedObserved : Option ObservedRuntime) : Bool :=
  let requestVersion := if requestVersion ≤ 0 then completionResultHashVersionV2 else requestVersion
  if storedVersion = completionResultHashVersionV3 then
    (storedHash = requestHash && completionResultHashVersionV3 ≤ requestVersion) ||
      storedHash = r.digestUnder storedVersion
  else if storedVersion = completionResultHashVersionV2 then
    (storedHash = requestHash && completionResultHashVersionV2 ≤ requestVersion) ||
      storedHash = r.digestUnder storedVersion
  else
    (storedHash = r.digestUnder storedVersion || storedHash = requestHash) &&
      completionLegacyRuntimeEvidenceCompatible r.observed storedObserved

/-- A replay is recognised by the digest it presents or by the digest of what it
reports, under the receipt's version. -/
theorem digest_of_replayMatches {r : CompletionResult} {storedObserved : Option ObservedRuntime}
    (found : completionReceiptReplayMatches storedHash storedVersion requestHash requestVersion r
      storedObserved = true) :
    storedHash = requestHash ∨ storedHash = r.digestUnder storedVersion := by
  unfold completionReceiptReplayMatches at found
  dsimp only at found
  split at found
  · simp only [Bool.or_eq_true, Bool.and_eq_true, decide_eq_true_eq] at found
    exact found.imp And.left id
  · split at found
    · simp only [Bool.or_eq_true, Bool.and_eq_true, decide_eq_true_eq] at found
      exact found.imp And.left id
    · simp only [Bool.or_eq_true, Bool.and_eq_true, decide_eq_true_eq] at found
      exact found.1.symm

end KiwiCI.Storage
