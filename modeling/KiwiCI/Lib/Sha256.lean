import Mathlib.Algebra.Group.Nat.Defs
import Mathlib.Data.List.Basic

/-!
SHA-256 on byte lists, written with structural recursion only, so that a digest
can be evaluated by the kernel.

A block is compressed by one pass over the round constants; the message
schedule is a window of sixteen words that each round extends by one.
-/

namespace KiwiCI.Sha256

/-- The fractional bits of the cube roots of the first sixty-four primes. -/
def roundConstants : List UInt32 :=
  [0x428a2f98, 0x71374491, 0xb5c0fbcf, 0xe9b5dba5, 0x3956c25b, 0x59f111f1, 0x923f82a4, 0xab1c5ed5,
   0xd807aa98, 0x12835b01, 0x243185be, 0x550c7dc3, 0x72be5d74, 0x80deb1fe, 0x9bdc06a7, 0xc19bf174,
   0xe49b69c1, 0xefbe4786, 0x0fc19dc6, 0x240ca1cc, 0x2de92c6f, 0x4a7484aa, 0x5cb0a9dc, 0x76f988da,
   0x983e5152, 0xa831c66d, 0xb00327c8, 0xbf597fc7, 0xc6e00bf3, 0xd5a79147, 0x06ca6351, 0x14292967,
   0x27b70a85, 0x2e1b2138, 0x4d2c6dfc, 0x53380d13, 0x650a7354, 0x766a0abb, 0x81c2c92e, 0x92722c85,
   0xa2bfe8a1, 0xa81a664b, 0xc24b8b70, 0xc76c51a3, 0xd192e819, 0xd6990624, 0xf40e3585, 0x106aa070,
   0x19a4c116, 0x1e376c08, 0x2748774c, 0x34b0bcb5, 0x391c0cb3, 0x4ed8aa4a, 0x5b9cca4f, 0x682e6ff3,
   0x748f82ee, 0x78a5636f, 0x84c87814, 0x8cc70208, 0x90befffa, 0xa4506ceb, 0xbef9a3f7, 0xc67178f2]

/-- The chaining state. -/
structure State where
  a : UInt32
  b : UInt32
  c : UInt32
  d : UInt32
  e : UInt32
  f : UInt32
  g : UInt32
  h : UInt32

def initial : State where
  a := 0x6a09e667
  b := 0xbb67ae85
  c := 0x3c6ef372
  d := 0xa54ff53a
  e := 0x510e527f
  f := 0x9b05688c
  g := 0x1f83d9ab
  h := 0x5be0cd19

/-- Rotation to the right. -/
def rotr (x n : UInt32) : UInt32 := (x >>> n) ||| (x <<< (32 - n))

/-- One round: the state after it and the window moved by one word. -/
def round (acc : State × List UInt32) (k : UInt32) : State × List UInt32 :=
  let (s, w) := acc
  let w0 := w.getD 0 0
  let w1 := w.getD 1 0
  let w14 := w.getD 14 0
  let bigSigma1 := rotr s.e 6 ^^^ rotr s.e 11 ^^^ rotr s.e 25
  let choice := (s.e &&& s.f) ^^^ (~~~s.e &&& s.g)
  let t1 := s.h + bigSigma1 + choice + k + w0
  let bigSigma0 := rotr s.a 2 ^^^ rotr s.a 13 ^^^ rotr s.a 22
  let majority := (s.a &&& s.b) ^^^ (s.a &&& s.c) ^^^ (s.b &&& s.c)
  let sigma0 := rotr w1 7 ^^^ rotr w1 18 ^^^ (w1 >>> 3)
  let sigma1 := rotr w14 17 ^^^ rotr w14 19 ^^^ (w14 >>> 10)
  ({ a := t1 + (bigSigma0 + majority), b := s.a, c := s.b, d := s.c
     e := s.d + t1, f := s.e, g := s.f, h := s.g },
    w.drop 1 ++ [sigma1 + w.getD 9 0 + sigma0 + w0])

/-- Compress one block of sixteen words into the chaining state. -/
def compress (s : State) (block : List UInt32) : State :=
  let t := (roundConstants.foldl round (s, block)).1
  { a := s.a + t.a, b := s.b + t.b, c := s.c + t.c, d := s.d + t.d
    e := s.e + t.e, f := s.f + t.f, g := s.g + t.g, h := s.h + t.h }

/-- The low `n` bytes of a number, most significant first. -/
def bigEndian : Nat → Nat → List UInt8
  | 0, _ => []
  | n + 1, v => UInt8.ofNat (v / 256 ^ n) :: bigEndian n v

theorem bigEndian_succ (n v : Nat) :
    bigEndian (n + 1) v = UInt8.ofNat (v / 256 ^ n) :: bigEndian n v := rfl

@[simp] theorem length_bigEndian (n v : Nat) : (bigEndian n v).length = n := by
  induction n with
  | zero => rfl
  | succ n ih => rw [bigEndian_succ, List.length_cons, ih]

/-- The big-endian words of a byte list. -/
def words : List UInt8 → List UInt32
  | b0 :: b1 :: b2 :: b3 :: rest =>
    (b0.toUInt32 <<< 24 ||| b1.toUInt32 <<< 16 ||| b2.toUInt32 <<< 8 ||| b3.toUInt32) :: words rest
  | _ => []

/-- The padded message. -/
def pad (message : List UInt8) : List UInt8 :=
  message ++ 0x80 :: List.replicate ((119 - message.length % 64) % 64) 0 ++
    bigEndian 8 (8 * message.length)

/-- Compress the blocks of a word list, at most `fuel` of them. -/
def blocks : Nat → State → List UInt32 → State
  | 0, s, _ => s
  | _ + 1, s, [] => s
  | fuel + 1, s, ws => blocks fuel (compress s (ws.take 16)) (ws.drop 16)

/-- `sha256.Sum256`. -/
def digest (message : List UInt8) : List UInt8 :=
  let padded := words (pad message)
  let s := blocks (padded.length / 16) initial padded
  [s.a, s.b, s.c, s.d, s.e, s.f, s.g, s.h].flatMap fun w => bigEndian 4 w.toNat

theorem length_digest (message : List UInt8) : (digest message).length = 32 := by
  simp [digest]

/-- A lower case hexadecimal digit. -/
def hexDigit (n : Nat) : Char := if n < 10 then Char.ofNat (48 + n) else Char.ofNat (87 + n)

/-- `hex.EncodeToString`. -/
def hex (bytes : List UInt8) : String :=
  String.ofList (bytes.flatMap fun b => [hexDigit (b.toNat / 16), hexDigit (b.toNat % 16)])

theorem length_hex (bytes : List UInt8) : (hex bytes).toList.length = 2 * bytes.length := by
  simp [hex, List.length_flatMap, Nat.mul_comm]

/-- The UTF-8 bytes of a text. -/
def utf8 (s : String) : List UInt8 := s.toList.flatMap String.utf8EncodeChar

example : hex (digest (utf8 "abc")) =
    "ba7816bf8f01cfea414140de5dae2223b00361a396177a9cb410ff61f20015ad" := by
  decide +kernel

end KiwiCI.Sha256
