import KiwiCI.Lib.Sha256

/-!
Base64 in the URL alphabet and without padding, as `base64.RawURLEncoding` writes it.
-/

namespace KiwiCI.Base64

open List

/-- The digit for a six-bit value. -/
def digit (n : Nat) : Char :=
  if n < 26 then Char.ofNat (65 + n)
  else if n < 52 then Char.ofNat (71 + n)
  else if n < 62 then Char.ofNat (n - 4)
  else if n = 62 then '-' else '_'

/-- `base64.RawURLEncoding.EncodeToString`. -/
def encode : List UInt8 → List Char
  | [] => []
  | [a] => [digit (a.toNat / 4), digit (a.toNat % 4 * 16)]
  | [a, b] =>
    [digit (a.toNat / 4), digit (a.toNat % 4 * 16 + b.toNat / 16), digit (b.toNat % 16 * 4)]
  | a :: b :: c :: rest =>
    digit (a.toNat / 4) :: digit (a.toNat % 4 * 16 + b.toNat / 16) ::
      digit (b.toNat % 16 * 4 + c.toNat / 64) :: digit (c.toNat % 64) :: encode rest

/-- The six-bit value a digit stands for. -/
def value (c : Char) : Nat :=
  if 'A' ≤ c ∧ c ≤ 'Z' then c.toNat - 65
  else if 'a' ≤ c ∧ c ≤ 'z' then c.toNat - 71
  else if '0' ≤ c ∧ c ≤ '9' then c.toNat + 4
  else if c = '-' then 62 else 63

theorem byte_lt (a : UInt8) : a.toNat < 256 := a.toNat_lt

/-! ## Bytes as text -/

/-- The text bytes are the UTF-8 form of, if any. -/
def decodeUtf8 (bytes : List UInt8) : Option String := String.fromUTF8? bytes.toByteArray

theorem decodeUtf8_iff {bytes : List UInt8} {s : String} :
    decodeUtf8 bytes = some s ↔ bytes = Sha256.utf8 s := by
  have form : (Sha256.utf8 s).toByteArray = s.toByteArray := by
    rw [← String.utf8Encode_toList]
    rfl
  unfold decodeUtf8 String.fromUTF8?
  rw [← toByteArray_inj, form]
  split
  · rw [Option.some.injEq, ← String.toByteArray_inj]
    rfl
  · rename_i invalid
    constructor
    · intro nothing
      cases nothing
    · intro same
      rw [same] at invalid
      exact absurd s.isValidUTF8 invalid

theorem length_le_utf8 (s : String) : s.toList.length ≤ (Sha256.utf8 s).length := by
  unfold Sha256.utf8
  induction s.toList with
  | nil => simp
  | cons c rest ih =>
    have size := c.utf8Size_pos
    rw [flatMap_cons, length_append, length_cons, String.length_utf8EncodeChar]
    omega

end KiwiCI.Base64
