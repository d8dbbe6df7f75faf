import KiwiCI.Lib.Sha256
import Mathlib.Data.Nat.ModEq

/-!
Encodings that can be read back from the front of what they are written before.

`Delimited` composes: a fixed width, a length in front of the bytes, a pair, a counted
list.  Injectivity of a record's encoding then follows field by field.
-/

namespace KiwiCI

open List

section Delimited

variable {α β γ : Type}

/-- What values of `P` are written as tells them apart, whatever follows. -/
def Delimited (P : α → Prop) (write : α → List β) : Prop :=
  ∀ a b x y, P a → P b → write a ++ x = write b ++ y → a = b ∧ x = y

variable {P : α → Prop} {Q : γ → Prop} {write : α → List β} {write' : γ → List β}

theorem Delimited.of_width (inj : ∀ a b, P a → P b → write a = write b → a = b)
    (width : ∀ a, (write a).length = n) : Delimited P write := by
  intro a b x y ha hb same
  obtain ⟨front, back⟩ := append_inj same ((width a).trans (width b).symm)
  exact ⟨inj a b ha hb front, back⟩

theorem Delimited.prefixed {count : Nat → List β}
    (counts : Delimited (· < bound) count) (inj : Function.Injective write) :
    Delimited (fun a => (write a).length < bound) fun a => count (write a).length ++ write a := by
  intro a b x y ha hb same
  simp only [append_assoc] at same
  obtain ⟨lengths, rest⟩ := counts _ _ _ _ ha hb same
  obtain ⟨front, back⟩ := append_inj rest lengths
  exact ⟨inj front, back⟩

theorem Delimited.pair (first : Delimited P write) (second : Delimited Q write') :
    Delimited (fun p : α × γ => P p.1 ∧ Q p.2) fun p => write p.1 ++ write' p.2 := by
  rintro ⟨a, c⟩ ⟨b, d⟩ x y ⟨ha, hc⟩ ⟨hb, hd⟩ same
  simp only [append_assoc] at same
  obtain ⟨rfl, rest⟩ := first a b _ _ ha hb same
  obtain ⟨rfl, back⟩ := second c d _ _ hc hd rest
  exact ⟨rfl, back⟩

theorem Delimited.flatMap (each : Delimited P write) {bs : List α}
    (length : as.length = bs.length) (fits : ∀ a ∈ as, P a) (fits' : ∀ b ∈ bs, P b)
    (same : as.flatMap write ++ x = bs.flatMap write ++ y) : as = bs ∧ x = y := by
  induction as generalizing bs with
  | nil =>
    cases bs with
    | nil => exact ⟨rfl, same⟩
    | cons => cases length
  | cons a as ih =>
    cases bs with
    | nil => cases length
    | cons b bs =>
      simp only [flatMap_cons, append_assoc] at same
      obtain ⟨rfl, rest⟩ :=
        each a b _ _ (fits a mem_cons_self) (fits' b mem_cons_self) same
      obtain ⟨rfl, back⟩ := ih (Nat.succ.inj length)
        (fun c there => fits c (mem_cons_of_mem _ there))
        (fun c there => fits' c (mem_cons_of_mem _ there)) rest
      exact ⟨rfl, back⟩

theorem Delimited.counted {bound : Nat} {count : Nat → List β}
    (counts : Delimited (· < bound) count) (each : Delimited P write) :
    Delimited (fun as : List α => as.length < bound ∧ ∀ a ∈ as, P a)
      fun as => count as.length ++ as.flatMap write := by
  intro as bs x y ha hb same
  simp only [append_assoc] at same
  obtain ⟨length, rest⟩ := counts _ _ _ _ ha.1 hb.1 same
  exact each.flatMap length ha.2 hb.2 rest

end Delimited

/-! ## Numbers and texts -/

namespace Sha256

theorem mod_of_bigEndian (same : bigEndian n a = bigEndian n b) :
    a % 256 ^ n = b % 256 ^ n := by
  induction n with
  | zero => simp [Nat.mod_one]
  | succ n ih =>
    rw [bigEndian_succ, bigEndian_succ] at same
    obtain ⟨first, rest⟩ := cons.inj same
    have digit : a / 256 ^ n % 256 = b / 256 ^ n % 256 := congrArg UInt8.toNat first
    rw [Nat.mod_pow_succ, Nat.mod_pow_succ, ih rest, digit]

theorem bigEndian_delimited (n : Nat) : Delimited (· < 256 ^ n) (bigEndian n) := by
  refine .of_width (fun a b ha hb same => ?_) fun a => length_bigEndian n a
  have low := mod_of_bigEndian same
  rwa [Nat.mod_eq_of_lt ha, Nat.mod_eq_of_lt hb] at low

theorem utf8_injective : Function.Injective utf8 := by
  intro s t same
  have bytes : (String.ofList s.toList).toByteArray = (String.ofList t.toList).toByteArray := by
    rw [String.toByteArray_ofList, String.toByteArray_ofList]
    exact congrArg toByteArray same
  simpa using String.toByteArray_inj.mp bytes

theorem length_utf8_le (s : String) : (utf8 s).length ≤ 4 * s.toList.length := by
  unfold utf8
  induction s.toList with
  | nil => simp
  | cons c rest ih =>
    have size := c.utf8Size_le_four
    rw [flatMap_cons, length_append, length_cons, String.length_utf8EncodeChar]
    omega

end Sha256

end KiwiCI
