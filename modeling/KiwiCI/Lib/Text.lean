import Mathlib.Algebra.Group.Nat.Defs
import Mathlib.Data.List.TakeWhile

/-!
Text operations, on strings as lists of characters so that they compute by
structural recursion.

`trimSpace`, `cut`, `trimSuffix` and their relatives are the operations of the
Go `strings` package; `btrim` and `splitPart` are the SQL text functions.
Positions only ever fall on ASCII separators here, so working on characters
instead of bytes changes nothing.
-/

namespace KiwiCI.Text

open List

variable {a s : List Char} {c : Char} {p : Char → Bool}

/-- Texts as lists of characters compare lawfully: one name for the fact, which every
membership test on them uses. -/
instance lawfulBEqChars : LawfulBEq (List Char) := inferInstance

/-- White space as `unicode.IsSpace` has it. -/
def isSpace (c : Char) : Bool :=
  c == ' ' || ('\t' ≤ c && c ≤ '\r') || c.toNat == 0x85 || c.toNat == 0xA0 ||
    c.toNat == 0x1680 || (0x2000 ≤ c.toNat && c.toNat ≤ 0x200A) || c.toNat == 0x2028 ||
    c.toNat == 0x2029 || c.toNat == 0x202F || c.toNat == 0x205F || c.toNat == 0x3000

/-- Drop the characters `p` admits from both ends. -/
def trimBy (p : Char → Bool) (s : List Char) : List Char :=
  ((s.dropWhile p).reverse.dropWhile p).reverse

/-- Split at the first occurrence of `sep`: what stands before and after it. -/
def cutList (sep : List Char) : List Char → Option (List Char × List Char)
  | [] => if sep = [] then some ([], []) else none
  | c :: rest =>
    if sep.isPrefixOf (c :: rest) then some ([], (c :: rest).drop sep.length)
    else (cutList sep rest).map fun (before, after) => (c :: before, after)

/-- Replace the occurrences of `old` from here on; the fuel bounds their number. -/
def replaceFrom (old new : List Char) : Nat → List Char → List Char
  | 0, s => s
  | fuel + 1, s =>
    match cutList old s with
    | none => s
    | some (before, after) => before ++ new ++ replaceFrom old new fuel after

/-- `strings.ReplaceAll`, of a text that is not empty. -/
def replaceAll (old new s : List Char) : List Char := replaceFrom old new s.length s

/-- The pieces between the occurrences of one character. -/
def splitChar (sep : Char) : List Char → List (List Char)
  | [] => [[]]
  | c :: rest =>
    if c = sep then [] :: splitChar sep rest
    else match splitChar sep rest with
      | [] => [[c]]
      | piece :: pieces => (c :: piece) :: pieces

/-- ASCII lower case of one character. -/
def lowerChar (c : Char) : Char :=
  if 'A' ≤ c ∧ c ≤ 'Z' then Char.ofNat (c.toNat + 32) else c

/-- Apply a list function to a string. -/
def onList (f : List Char → List Char) (s : String) : String := String.ofList (f s.toList)

def trimSpace : String → String := onList (trimBy isSpace)

/-- SQL `BTRIM(s)`: only blanks are trimmed. -/
def btrim : String → String := onList (trimBy (· == ' '))

/-- `strings.Trim(s, "c")` and SQL `BTRIM(s, 'c')` for one character. -/
def trimChar (c : Char) : String → String := onList (trimBy (· == c))

/-- ASCII lower case: `auth.FoldRepoFullName`, and SQL `LOWER` on ASCII text. -/
def lower : String → String := onList (List.map lowerChar)

/-- `strings.Cut`: around the first occurrence of `sep`. -/
def cut (sep s : String) : Option (String × String) :=
  (cutList sep.toList s.toList).map fun (before, after) => (String.ofList before, String.ofList after)

/-- Around the last occurrence of the character `c`. -/
def cutLast (c : Char) (s : String) : Option (String × String) :=
  (cutList [c] s.toList.reverse).map fun (after, before) =>
    (String.ofList before.reverse, String.ofList after.reverse)

def contains (sub s : String) : Bool := (cutList sub.toList s.toList).isSome

/-- `strings.ContainsAny`, with the characters given by a predicate. -/
def containsAny (p : Char → Bool) (s : String) : Bool := s.toList.any p

/-- Everything before the first character `p` admits. -/
def beforeAny (p : Char → Bool) : String → String := onList (List.takeWhile fun c => !p c)

def hasPrefix (pre s : String) : Bool := pre.toList.isPrefixOf s.toList

def hasSuffix (suf s : String) : Bool := suf.toList.isSuffixOf s.toList

def trimPrefix (pre s : String) : String :=
  if hasPrefix pre s then onList (List.drop pre.toList.length) s else s

def trimSuffix (suf s : String) : String :=
  if hasSuffix suf s then onList (fun l => l.take (l.length - suf.toList.length)) s else s

/-- `strings.Split` at one character. -/
def split (sep : Char) (s : String) : List String := (splitChar sep s.toList).map String.ofList

/-- `strings.Count` of one character. -/
def countChar (c : Char) (s : String) : Nat := s.toList.count c

/-- The number decimal digits stand for. -/
def decimal (digits : List Char) : Nat :=
  digits.foldl (fun n c => 10 * n + (c.toNat - '0'.toNat)) 0

/-- A number in decimal digits, at most `limit`. -/
def isDecimal (limit : Nat) (digits : List Char) : Bool :=
  digits ≠ [] && digits.all Char.isDigit && decimal digits ≤ limit

/-- `strconv.Atoi` accepts the text: an optional sign, at least one digit, and a value an
`int` can hold. -/
def isInteger (s : String) : Bool :=
  match s.toList with
  | '-' :: rest => isDecimal (2 ^ 63) rest
  | '+' :: rest => isDecimal (2 ^ 63 - 1) rest
  | digits => isDecimal (2 ^ 63 - 1) digits

def atoi (s : String) : Option Int :=
  if !isInteger s then none
  else
    match s.toList with
    | '-' :: rest => some (-decimal rest)
    | '+' :: rest => some (decimal rest)
    | digits => some (decimal digits)

/-- A text that is cut is what stands before, the separator and what stands after. -/
theorem cutList_eq {before after : List Char} (found : cutList sep s = some (before, after)) :
    s = before ++ sep ++ after := by
  induction s generalizing before with
  | nil =>
    unfold cutList at found
    split at found
    · rename_i empty
      obtain ⟨rfl, rfl⟩ := Prod.mk.inj (Option.some.inj found)
      rw [empty]
      rfl
    · cases found
  | cons c rest ih =>
    unfold cutList at found
    split at found
    · rename_i opens
      obtain ⟨rfl, rfl⟩ := Prod.mk.inj (Option.some.inj found)
      obtain ⟨after, shape⟩ := isPrefixOf_iff_prefix.mp opens
      rw [← shape, drop_left, nil_append]
    · obtain ⟨⟨inner, _⟩, there, shape⟩ := Option.map_eq_some_iff.mp found
      obtain ⟨rfl, rfl⟩ := Prod.mk.inj shape
      rw [ih there]
      rfl

theorem replaceAll_of_absent (absent : cutList old s = none) :
    replaceAll old new s = s := by
  unfold replaceAll
  cases s with
  | nil => rfl
  | cons c rest => rw [length_cons, replaceFrom, absent]

theorem toList_toString (n : Nat) : (toString n).toList = Nat.toDigits 10 n := by
  change (Nat.repr n).toList = _
  rw [Nat.repr_eq_ofList_toDigits, String.toList_ofList]

theorem toString_injective : Function.Injective (toString : Nat → String) := by
  intro m n same
  have digits : Nat.toDigits 10 m = Nat.toDigits 10 n := by
    rw [← toList_toString, ← toList_toString, same]
  rw [← Nat.ofDigitChars_toDigits (b := 10) (n := m) (by decide) (by decide), digits,
    Nat.ofDigitChars_toDigits (by decide) (by decide)]

/-- Texts made of the characters `p` admits, each followed by something else, are
determined. -/
theorem append_all_inj {α : Type} {p : α → Bool} {a b rest rest' : List α}
    (all : ∀ c ∈ a, p c = true) (all' : ∀ c ∈ b, p c = true)
    (ends : ∀ c ∈ rest.head?, p c = false) (ends' : ∀ c ∈ rest'.head?, p c = false)
    (same : a ++ rest = b ++ rest') : a = b ∧ rest = rest' := by
  have front {a rest : List α} (all : ∀ c ∈ a, p c = true)
      (ends : ∀ c ∈ rest.head?, p c = false) : (a ++ rest).takeWhile p = a := by
    rw [takeWhile_append_of_pos all]
    cases rest with
    | nil => simp
    | cons c rest => simp [ends c rfl]
  have first : a = b := by rw [← front all ends, same, front all' ends']
  subst first
  exact ⟨rfl, append_cancel_left same⟩

/-- Texts before the first separator, and what follows it, are determined. -/
theorem append_sep_inj {α : Type} {sep : α} {a b rest rest' : List α} (plain : sep ∉ a)
    (plain' : sep ∉ b) (same : a ++ sep :: rest = b ++ sep :: rest') : a = b ∧ rest = rest' := by
  classical
  have before {a : List α} (plain : sep ∉ a) : ∀ c ∈ a, decide (c ≠ sep) = true :=
    fun c member => decide_eq_true fun eq => plain (eq ▸ member)
  obtain ⟨rfl, after⟩ :=
    append_all_inj (before plain) (before plain') (by simp) (by simp) same
  exact ⟨rfl, (cons.inj after).2⟩

/-! ## One-character separators -/

theorem cutList_char (b : List Char) (plain : c ∉ a) : cutList [c] (a ++ c :: b) = some (a, b) := by
  induction a with
  | nil => simp [cutList]
  | cons d a ih =>
    have differ : c ≠ d := fun eq => plain (by simp [eq])
    have rest := ih fun member => plain (mem_cons_of_mem _ member)
    simp [cutList, differ, rest]

theorem cutList_char_none : cutList [c] s = none ↔ c ∉ s := by
  induction s with
  | nil => simp [cutList]
  | cons d s ih =>
    by_cases same : c = d
    · simp [cutList, same]
    · simp [cutList, same, ih]

theorem cutList_char_iff :
    cutList [c] s = some (a, b) ↔ s = a ++ c :: b ∧ c ∉ a := by
  constructor
  · intro found
    have member : c ∈ s := by
      by_contra absent
      rw [cutList_char_none.mpr absent] at found
      cases found
    obtain ⟨before, after, rfl, plain⟩ := eq_append_cons_of_mem member
    rw [cutList_char after plain] at found
    obtain ⟨rfl, rfl⟩ := Prod.mk.inj (Option.some.inj found)
    exact ⟨rfl, plain⟩
  · rintro ⟨rfl, plain⟩
    exact cutList_char b plain

theorem cut_char_iff {s a b : String} (single : sep.toList = [c]) :
    cut sep s = some (a, b) ↔ s.toList = a.toList ++ c :: b.toList ∧ c ∉ a.toList := by
  rw [← cutList_char_iff]
  unfold cut
  rw [single, Option.map_eq_some_iff]
  constructor
  · rintro ⟨⟨x, y⟩, found, shape⟩
    obtain ⟨rfl, rfl⟩ := Prod.mk.inj shape
    rw [found, String.toList_ofList, String.toList_ofList]
  · intro found
    exact ⟨(a.toList, b.toList), found, by simp⟩

theorem cut_char_none {s : String} (single : sep.toList = [c]) :
    cut sep s = none ↔ c ∉ s.toList := by
  unfold cut
  rw [single, Option.map_eq_none_iff, cutList_char_none]

theorem contains_char {s : String} (single : sep.toList = [c]) :
    contains sep s = true ↔ c ∈ s.toList := by
  unfold contains
  rw [single, Option.isSome_iff_ne_none, ne_eq, cutList_char_none, not_not]

theorem mem_splitChar (member : c ∈ s) (other : c ≠ sep) :
    ∃ piece ∈ splitChar sep s, c ∈ piece := by
  induction s with
  | nil => cases member
  | cons d s ih =>
    unfold splitChar
    rcases mem_cons.mp member with rfl | later
    · rw [if_neg other]
      split
      · exact ⟨[c], mem_cons_self, mem_cons_self⟩
      · exact ⟨_, mem_cons_self, mem_cons_self⟩
    · obtain ⟨piece, there, inside⟩ := ih later
      split
      · exact ⟨piece, mem_cons_of_mem _ there, inside⟩
      · split
        · rename_i none
          rw [none] at there
          cases there
        · rename_i first rest shape
          rw [shape] at there
          rcases mem_cons.mp there with rfl | behind
          · exact ⟨d :: piece, mem_cons_self, mem_cons_of_mem _ inside⟩
          · exact ⟨piece, mem_cons_of_mem _ behind, inside⟩

theorem splitChar_append (rest : List Char) (plain : sep ∉ a) :
    splitChar sep (a ++ sep :: rest) = a :: splitChar sep rest := by
  induction a with
  | nil => simp [splitChar]
  | cons c a ih =>
    have differ : c ≠ sep := fun same => plain (by simp [same])
    rw [cons_append, splitChar, if_neg differ,
      ih fun member => plain (mem_cons_of_mem _ member)]

theorem splitChar_plain (plain : sep ∉ a) : splitChar sep a = [a] := by
  induction a with
  | nil => rfl
  | cons c a ih =>
    have differ : c ≠ sep := fun same => plain (by simp [same])
    rw [splitChar, if_neg differ, ih fun member => plain (mem_cons_of_mem _ member)]

/-- Every character but the separator stands in one of the pieces. -/
theorem mem_split {s : String} (member : c ∈ s.toList) (other : c ≠ sep) :
    ∃ piece ∈ split sep s, c ∈ piece.toList := by
  obtain ⟨piece, there, inside⟩ := mem_splitChar member other
  exact ⟨String.ofList piece, mem_map.mpr ⟨piece, there, rfl⟩, by simpa using inside⟩

theorem cutLast_iff {s a : String} :
    cutLast c s = some (a, b) ↔ s.toList = a.toList ++ c :: b.toList ∧ c ∉ b.toList := by
  unfold cutLast
  rw [Option.map_eq_some_iff]
  constructor
  · rintro ⟨⟨after, before⟩, found, shape⟩
    obtain ⟨rfl, rfl⟩ := Prod.mk.inj shape
    obtain ⟨whole, plain⟩ := cutList_char_iff.mp found
    refine ⟨?_, by simpa using plain⟩
    rw [← reverse_reverse s.toList, whole]
    simp
  · rintro ⟨whole, plain⟩
    refine ⟨(b.toList.reverse, a.toList.reverse), cutList_char_iff.mpr ?_, by simp⟩
    exact ⟨by simp [whole], by simpa using plain⟩

theorem cutLast_none {s : String} : cutLast c s = none ↔ c ∉ s.toList := by
  unfold cutLast
  rw [Option.map_eq_none_iff, cutList_char_none, mem_reverse]

/-- A separator with a character the text does not have is not found. -/
theorem cut_none_of_not_mem {s : String} (part : c ∈ sep.toList)
    (absent : c ∉ s.toList) : cut sep s = none := by
  unfold cut
  rw [Option.map_eq_none_iff]
  cases found : cutList sep.toList s.toList with
  | none => rfl
  | some parts =>
    rw [cutList_eq found] at absent
    exact absurd (by simp [part]) absent

/-- A doubled separator is not made by putting a plain text in front of one. -/
theorem cutList_double_none (plain : c ∉ a)
    (opens : [c].isPrefixOf b = false) (absent : cutList [c, c] b = none) :
    cutList [c, c] (a ++ c :: b) = none := by
  induction a with
  | nil =>
    have front : [c, c].isPrefixOf (c :: b) = false := by simpa [isPrefixOf] using opens
    rw [nil_append, cutList, if_neg (by rw [front]; exact Bool.false_ne_true), absent]
    rfl
  | cons d a ih =>
    have differ : c ≠ d := fun same => plain (by simp [same])
    rw [cons_append, cutList, if_neg (by simp [isPrefixOf, differ]),
      ih fun member => plain (mem_cons_of_mem _ member)]
    rfl

/-- A text without the separator stands in front of one exactly when it stands in front of
what comes before it. -/
theorem isPrefixOf_append_sep {pre : List Char} (plain : c ∉ pre) :
    pre.isPrefixOf (a ++ c :: b) = pre.isPrefixOf a := by
  induction a generalizing pre with
  | nil =>
    cases pre with
    | nil => rfl
    | cons d pre =>
      have differ : d ≠ c := fun same => plain (by simp [same])
      simp [isPrefixOf, differ]
  | cons d a ih =>
    cases pre with
    | nil => rfl
    | cons e pre =>
      rw [cons_append, isPrefixOf, isPrefixOf,
        ih fun member => plain (mem_cons_of_mem _ member)]

/-! ## Trimmed texts -/

theorem dropWhile_eq_self {α : Type} {p : α → Bool} {s : List α} :
    s.dropWhile p = s ↔ ∀ c ∈ s.head?, p c = false := by
  rw [dropWhile_eq_self_iff]
  cases s <;> simp

/-- A text is trimmed when neither end is trimmed away. -/
theorem trimBy_eq_self :
    trimBy p s = s ↔ (∀ c ∈ s.head?, p c = false) ∧ ∀ c ∈ s.getLast?, p c = false := by
  constructor
  · intro same
    have length := congrArg length same
    rw [trimBy, length_reverse] at length
    have inner := (dropWhile_sublist p :
      ((s.dropWhile p).reverse.dropWhile p).Sublist _).length_le
    rw [length, length_reverse] at inner
    have left : s.dropWhile p = s := (dropWhile_sublist p).eq_of_length_le inner
    rw [trimBy, left, reverse_eq_iff] at same
    refine ⟨dropWhile_eq_self.mp left, ?_⟩
    rw [← head?_reverse]
    exact dropWhile_eq_self.mp same
  · rintro ⟨first, last⟩
    unfold trimBy
    rw [dropWhile_eq_self.mpr first, dropWhile_eq_self.mpr (by rwa [head?_reverse]),
      reverse_reverse]

theorem trimBy_sublist (p : Char → Bool) (s : List Char) : (trimBy p s).Sublist s := by
  have inner : ((s.dropWhile p).reverse.dropWhile p).Sublist (s.dropWhile p).reverse :=
    dropWhile_sublist p
  have outer : (s.dropWhile p).Sublist s := dropWhile_sublist p
  exact (reverse_sublist.mpr inner).trans (by rwa [reverse_reverse])

theorem trimSpace_sublist (s : String) : (trimSpace s).toList.Sublist s.toList := by
  rw [trimSpace, onList, String.toList_ofList]
  exact trimBy_sublist _ _

theorem head_dropWhile (first : (s.dropWhile p).head? = some c) : p c = false := by
  have stops := head?_dropWhile_not p s
  rw [first] at stops
  exact stops

theorem trimBy_trimBy (p : Char → Bool) (s : List Char) : trimBy p (trimBy p s) = trimBy p s := by
  have front : trimBy p s <+: s.dropWhile p := by
    rw [← reverse_suffix, trimBy, reverse_reverse]
    exact dropWhile_suffix p
  refine trimBy_eq_self.mpr ⟨fun c first => ?_, fun c last => ?_⟩
  · obtain ⟨rest, shape⟩ := front
    apply head_dropWhile (s := s)
    rw [← shape, head?_append, first]
    rfl
  · rw [trimBy, getLast?_reverse] at last
    exact head_dropWhile last

theorem trimSpace_trimSpace (s : String) : trimSpace (trimSpace s) = trimSpace s := by
  rw [trimSpace, onList, onList, String.toList_ofList, trimBy_trimBy]

theorem all_of_trimBy_nil (nothing : trimBy p s = []) : ∀ c ∈ s, p c = true := by
  rw [trimBy, reverse_eq_nil_iff, dropWhile_eq_nil_iff] at nothing
  intro c member
  rw [← takeWhile_append_dropWhile (p := p) (l := s)] at member
  rcases mem_append.mp member with front | back
  · exact mem_takeWhile_imp front
  · exact nothing c (mem_reverse.mpr back)

theorem toList_of_hasPrefix {s : String} (opens : hasPrefix pre s = true) :
    s.toList = pre.toList ++ (trimPrefix pre s).toList := by
  obtain ⟨rest, shape⟩ := isPrefixOf_iff_prefix.mp opens
  rw [trimPrefix, if_pos opens, onList, String.toList_ofList, ← shape, drop_left]

theorem mem_of_hasPrefix {s : String} (opens : hasPrefix pre s = true)
    (member : c ∈ pre.toList) : c ∈ s.toList :=
  (List.isPrefixOf_iff_prefix.mp opens).subset member

/-! ## Lower case -/

/-- A character is a capital letter, or its own lower case. -/
theorem capital_or_self (c : Char) :
    (∃ n < 26, c = Char.ofNat (65 + n) ∧ lowerChar c = Char.ofNat (97 + n)) ∨ lowerChar c = c := by
  unfold lowerChar
  split
  · rename_i capital
    have above : 65 ≤ c.toNat := capital.1
    have below : c.toNat ≤ 90 := capital.2
    refine .inl ⟨c.toNat - 65, by omega, ?_, ?_⟩
    · rw [show 65 + (c.toNat - 65) = c.toNat by omega, Char.ofNat_toNat]
    · rw [show 97 + (c.toNat - 65) = c.toNat + 32 by omega]
  · exact .inr rfl

/-- A class of characters that has no letters does not see the case. -/
theorem class_lowerChar
    (blind : ∀ n < 26, p (Char.ofNat (97 + n)) = p (Char.ofNat (65 + n))) (c : Char) :
    p (lowerChar c) = p c := by
  rcases capital_or_self c with ⟨n, bound, rfl, low⟩ | same
  · rw [low, blind n bound]
  · rw [same]

theorem lowerChar_lowerChar (c : Char) : lowerChar (lowerChar c) = lowerChar c := by
  rcases capital_or_self c with ⟨n, bound, rfl, low⟩ | same
  · rw [low]
    exact (by decide : ∀ n < 26, lowerChar (Char.ofNat (97 + n)) = Char.ofNat (97 + n)) n bound
  · rw [same, same]

@[simp] theorem toList_lower (s : String) : (lower s).toList = s.toList.map lowerChar := by
  simp [lower, onList]

theorem lower_lower (s : String) : lower (lower s) = lower s := by
  apply String.toList_inj.mp
  simp only [toList_lower, map_map]
  exact map_congr_left fun c _ => lowerChar_lowerChar c

/-- Trimming a class without letters does not see the case. -/
theorem trimBy_map_lowerChar
    (blind : ∀ n < 26, p (Char.ofNat (97 + n)) = p (Char.ofNat (65 + n))) (s : List Char) :
    trimBy p (s.map lowerChar) = (trimBy p s).map lowerChar := by
  have class_ : p ∘ lowerChar = p := funext (class_lowerChar blind)
  unfold trimBy
  rw [dropWhile_map, class_, ← map_reverse, dropWhile_map, class_,
    map_reverse]

theorem trimSpace_lower (s : String) : trimSpace (lower s) = lower (trimSpace s) := by
  apply String.toList_inj.mp
  simp only [trimSpace, onList, toList_lower, String.toList_ofList]
  exact trimBy_map_lowerChar (by decide) s.toList

/-- Whether a character without case occurs does not depend on the case of the text. -/
theorem mem_map_lowerChar
    (blind : ∀ n < 26, (Char.ofNat (97 + n) == d) = (Char.ofNat (65 + n) == d)) :
    d ∈ s.map lowerChar ↔ d ∈ s := by
  have same : ∀ c, (lowerChar c = d) ↔ c = d := by
    intro c
    have class_ := class_lowerChar (p := (· == d)) blind c
    rw [← beq_iff_eq, class_, beq_iff_eq]
  simp [same]

end KiwiCI.Text

/-!
`url.Parse` of the Go standard library, as far as the host and the path of a
URL go: fragment and query are cut off, a scheme is recognised, an opaque
reference has neither host nor path, and the authority is checked the way
`parseAuthority` checks it.
-/

namespace KiwiCI.Url

open Text

/-- The two parts of a parsed URL that callers read. -/
structure Parts where
  host : String := ""
  path : String := ""
  deriving DecidableEq, Repr

/-- The value of a hexadecimal digit. -/
def hexValue (c : Char) : Option Nat :=
  if '0' ≤ c ∧ c ≤ '9' then some (c.toNat - '0'.toNat)
  else if 'a' ≤ c ∧ c ≤ 'f' then some (c.toNat - 'a'.toNat + 10)
  else if 'A' ≤ c ∧ c ≤ 'F' then some (c.toNat - 'A'.toNat + 10)
  else none

/-- Percent decoding; `none` on a truncated or malformed escape. -/
def unescape : List Char → Option (List Char)
  | [] => some []
  | '%' :: high :: low :: rest =>
    match hexValue high, hexValue low with
    | some h, some l => (unescape rest).map (Char.ofNat (16 * h + l) :: ·)
    | _, _ => none
  | '%' :: _ => none
  | c :: rest => (unescape rest).map (c :: ·)

/-- Split a leading `scheme:` off.  `none` is the error of a leading colon; an
empty scheme means there is none. -/
def getScheme (s : List Char) : Option (List Char × List Char) :=
  match s.span (fun c => c.isAlpha || c.isDigit || c == '+' || c == '-' || c == '.') with
  | ([], ':' :: _) => none
  | (c :: name, ':' :: rest) => if c.isAlpha then some (c :: name, rest) else some ([], s)
  | _ => some ([], s)

/-- An optional `:port` with nothing but digits. -/
def validOptionalPort : List Char → Bool
  | [] => true
  | ':' :: digits => digits.all Char.isDigit
  | _ => false

/-- The characters a host may not contain unescaped. -/
def forbiddenInHost (c : Char) : Bool :=
  c.toNat < 0x80 && !(c.isAlphanum || "-_.~!$&'()*+,;=:[]<>\"%".toList.contains c)

/-- The characters user information may contain. -/
def validUserinfo (c : Char) : Bool :=
  c.isAlphanum || "-._:~!$&'()*+,;=%@".toList.contains c

/-- `parseHost`: brackets are closed and a port is numeric. -/
def parseHost (host : List Char) : Option (List Char) :=
  if host.any forbiddenInHost then none
  else if host.head? = some '[' then
    match cutList [']'] host.reverse with
    | none => none
    | some (tail, _) => if validOptionalPort tail.reverse then some host else none
  else
    match cutList [':'] host.reverse with
    | none => some host
    | some (port, _) => if port.all Char.isDigit then some host else none

/-- `parseAuthority`: the host behind the last `@`. -/
def parseAuthority (authority : List Char) : Option (List Char) :=
  match cutList ['@'] authority.reverse with
  | none => parseHost authority
  | some (host, user) => if user.all validUserinfo then parseHost host.reverse else none

/-- The reference behind the scheme: authority and path. -/
def parseRest (scheme rest : List Char) : Option Parts :=
  if rest.head? ≠ some '/' then
    if scheme ≠ [] then some {}
    else if (rest.takeWhile (· ≠ '/')).contains ':' then none
    else (unescape rest).map fun path => { path := String.ofList path }
  else if ['/', '/'].isPrefixOf rest && (scheme ≠ [] || !(['/', '/', '/'].isPrefixOf rest)) then do
    let (authority, path) := (rest.drop 2).span (· ≠ '/')
    let host ← parseAuthority authority
    let path ← unescape path
    pure { host := String.ofList host, path := String.ofList path }
  else (unescape rest).map fun path => { path := String.ofList path }

/-- `url.Parse`; `none` stands for an error. -/
def parse (raw : String) : Option Parts := do
  let (body, fragment) := raw.toList.span (· ≠ '#')
  let _ ← unescape (fragment.drop 1)
  if body.any fun c => c.toNat < 0x20 || c.toNat == 0x7F then none
  let (scheme, rest) ← getScheme body
  parseRest scheme (rest.takeWhile (· ≠ '?'))

end KiwiCI.Url
