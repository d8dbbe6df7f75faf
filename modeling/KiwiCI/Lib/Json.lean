import KiwiCI.Lib.Table
import KiwiCI.Lib.Text

/-!
JSON values as `encoding/json` writes and reads them: an object is the list of its
members in the order they are written.

`render` is the compact text of `json.Marshal`, HTML escaping included; `field?` is
how `json.Unmarshal` finds a member for a struct field.  `ofStrings` writes a
string map, whose members come in key order, so maps with the same entries have
the same JSON.
-/

namespace KiwiCI

/-- A character of a JSON number. -/
def numberChar (c : Char) : Bool :=
  c.isDigit || c == '-' || c == '+' || c == '.' || c == 'e' || c == 'E'

/-- The text of a JSON number with a fraction or an exponent. -/
structure Decimal where
  text : List Char
  numeral : ∀ c ∈ text, numberChar c = true
  fractional : ∃ c ∈ text, c.isDigit = false ∧ c ≠ '-'
  deriving DecidableEq, Repr

/-- A JSON value. -/
inductive Json where
  | null
  | bool (b : Bool)
  | num (n : Int)
  | decimal (d : Decimal)
  | str (s : String)
  | arr (items : List Json)
  | obj (members : List (String × Json))
  deriving Repr

namespace Json

open Text

/-- A lower-case hexadecimal digit. -/
def hexDigit (n : Nat) : Char := if n < 10 then Char.ofNat (48 + n) else Char.ofNat (87 + n)

/-- A character as it is written inside a JSON string. -/
def escapeChar (c : Char) : List Char :=
  if c = '"' then ['\\', '"']
  else if c = '\\' then ['\\', '\\']
  else if c = '\n' then ['\\', 'n']
  else if c = '\r' then ['\\', 'r']
  else if c = '\t' then ['\\', 't']
  else if c.toNat = 8 then ['\\', 'b']
  else if c.toNat = 12 then ['\\', 'f']
  else if c.toNat < 32 ∨ c = '<' ∨ c = '>' ∨ c = '&' ∨ c.toNat = 0x2028 ∨ c.toNat = 0x2029 then
    ['\\', 'u', hexDigit (c.toNat / 4096 % 16), hexDigit (c.toNat / 256 % 16),
      hexDigit (c.toNat / 16 % 16), hexDigit (c.toNat % 16)]
  else [c]

/-- A JSON string. -/
def quote (s : String) : List Char := '"' :: s.toList.flatMap escapeChar ++ ['"']

mutual

/-- `json.Marshal`. -/
def render : Json → List Char
  | null => "null".toList
  | bool b => if b then "true".toList else "false".toList
  | num n => (toString n).toList
  | decimal d => d.text
  | str s => quote s
  | arr items => '[' :: [','].intercalate (renderAll items) ++ [']']
  | obj members => '\x7b' :: [','].intercalate (renderMembers members) ++ ['\x7d']

/-- The texts of the items of an array. -/
def renderAll : List Json → List (List Char)
  | [] => []
  | item :: rest => render item :: renderAll rest

/-- The texts of the members of an object. -/
def renderMembers : List (String × Json) → List (List Char)
  | [] => []
  | (key, value) :: rest => (quote key ++ ':' :: render value) :: renderMembers rest

end

mutual

/-- Whether `p` admits a string of the value, member names included. -/
def anyString (p : String → Bool) : Json → Bool
  | null | bool _ | num _ | decimal _ => false
  | str s => p s
  | arr items => anyStringAll p items
  | obj members => anyStringMembers p members

/-- `anyString` over the items of an array. -/
def anyStringAll (p : String → Bool) : List Json → Bool
  | [] => false
  | item :: rest => anyString p item || anyStringAll p rest

/-- `anyString` over the members of an object. -/
def anyStringMembers (p : String → Bool) : List (String × Json) → Bool
  | [] => false
  | (key, value) :: rest => p key || anyString p value || anyStringMembers p rest

end

/-- The member `json.Unmarshal` stores into the struct field `name`: names are
compared without regard to case and the last one written wins. -/
def field? (name : String) : Json → Option Json
  | obj members => (members.reverse.find? fun m => lower m.1 = lower name).map Prod.snd
  | _ => none

end Json

end KiwiCI

/-!
The compact text of a JSON value determines the value.

A string ends at the first quote that is not escaped, a number at the first
character that no number has, and the first character of a text tells the kind of
value it starts, so two values that are written alike, each followed by the end of
an array, of an object or of the text, are the same value and are followed by the
same text.
-/

namespace KiwiCI.Json

open List

variable {rest rest' : List Char}

/-! ## Strings -/

/-- The value of a lower-case hexadecimal digit. -/
def hexValue (c : Char) : Nat := if c.isDigit then c.toNat - 48 else c.toNat - 87

theorem hexValue_hexDigit : ∀ n < 16, hexValue (hexDigit n) = n := by decide

/-- The first character of an escaped text, and the text after it. -/
def unescape : List Char → Option (Char × List Char)
  | [] => none
  | c :: rest =>
    if c = '\\' then
      match rest with
      | [] => none
      | 'u' :: rest =>
        some (Char.ofNat (rest.take 4 |>.foldl (fun n d => 16 * n + hexValue d) 0), rest.drop 4)
      | 'n' :: rest => some ('\n', rest)
      | 'r' :: rest => some ('\r', rest)
      | 't' :: rest => some ('\t', rest)
      | 'b' :: rest => some (Char.ofNat 8, rest)
      | 'f' :: rest => some (Char.ofNat 12, rest)
      | k :: rest => some (k, rest)
    else some (c, rest)

/-- A character below 65536 is the number its four digits spell. -/
theorem unescape_hex (small : c.toNat < 65536) (rest : List Char) :
    unescape (['\\', 'u', hexDigit (c.toNat / 4096 % 16), hexDigit (c.toNat / 256 % 16),
      hexDigit (c.toNat / 16 % 16), hexDigit (c.toNat % 16)] ++ rest) = some (c, rest) := by
  have digit : ∀ n, hexValue (hexDigit (n % 16)) = n % 16 := fun n =>
    hexValue_hexDigit _ (Nat.mod_lt _ (by decide))
  have number : 16 * (16 * (16 * (16 * 0 + c.toNat / 4096 % 16) + c.toNat / 256 % 16) +
      c.toNat / 16 % 16) + c.toNat % 16 = c.toNat := by omega
  change some (Char.ofNat (16 * (16 * (16 * (16 * 0 + hexValue _) + hexValue _) + hexValue _) +
    hexValue _), rest) = _
  rw [digit, digit, digit, digit, number, Char.ofNat_toNat]

theorem unescape_escapeChar (c : Char) (rest : List Char) :
    unescape (escapeChar c ++ rest) = some (c, rest) := by
  have named : ∀ n, c.toNat = n → c = Char.ofNat n := by
    rintro n rfl
    exact (Char.ofNat_toNat c).symm
  unfold escapeChar
  split_ifs with quote slash newline carriage tab backspace feed coded
  · rw [quote]; rfl
  · rw [slash]; rfl
  · rw [newline]; rfl
  · rw [carriage]; rfl
  · rw [tab]; rfl
  · rw [named 8 backspace]; rfl
  · rw [named 12 feed]; rfl
  · refine unescape_hex ?_ rest
    rcases coded with low | rfl | rfl | rfl | line | paragraph
    · omega
    · decide
    · decide
    · decide
    · omega
    · omega
  · exact if_neg slash

theorem escapeChar_append_inj
    (same : escapeChar c ++ rest = escapeChar c' ++ rest') : c = c' ∧ rest = rest' := by
  have both := unescape_escapeChar c rest
  rw [same, unescape_escapeChar] at both
  obtain ⟨rfl, rfl⟩ := Prod.mk.inj (Option.some.inj both)
  exact ⟨rfl, rfl⟩

theorem escapeChar_ne_quote (c : Char) (rest rest' : List Char) :
    escapeChar c ++ rest ≠ '"' :: rest' := by
  unfold escapeChar
  split_ifs with quote <;> simp
  exact fun same => absurd same quote

theorem escaped_inj {s' : List Char}
    (same : s.flatMap escapeChar ++ '"' :: rest = s'.flatMap escapeChar ++ '"' :: rest') :
    s = s' ∧ rest = rest' := by
  induction s generalizing s' with
  | nil =>
    cases s' with
    | nil => exact ⟨rfl, (cons.inj same).2⟩
    | cons d s' =>
      rw [flatMap_cons, append_assoc] at same
      exact absurd same.symm (escapeChar_ne_quote d _ _)
  | cons c s ih =>
    cases s' with
    | nil =>
      rw [flatMap_cons, append_assoc] at same
      exact absurd same (escapeChar_ne_quote c _ _)
    | cons d s' =>
      simp only [flatMap_cons, append_assoc] at same
      obtain ⟨rfl, tails⟩ := escapeChar_append_inj same
      obtain ⟨rfl, after⟩ := ih tails
      exact ⟨rfl, after⟩

theorem quote_append_inj (same : quote s ++ rest = quote s' ++ rest') : s = s' ∧ rest = rest' := by
  simp only [quote, cons_append, append_assoc, cons.injEq, true_and,
    nil_append] at same
  obtain ⟨chars, after⟩ := escaped_inj same
  exact ⟨String.toList_inj.mp chars, after⟩

/-! ## Numbers -/

/-- An integer is written as its digits, after a minus sign if it is negative. -/
theorem toList_toString_int (n : Int) :
    (toString n).toList =
      if 0 ≤ n then Nat.toDigits 10 n.toNat else '-' :: Nat.toDigits 10 (-n).toNat := by
  cases n with
  | ofNat m => exact Text.toList_toString m
  | negSucc m =>
    change ("-" ++ Nat.repr (m + 1)).toList = _
    rw [String.toList_append, show (Nat.repr (m + 1)).toList = _ from Text.toList_toString (m + 1)]
    rfl

theorem mem_integer {n : Int} (member : c ∈ (toString n).toList) :
    c.isDigit = true ∨ c = '-' := by
  rw [toList_toString_int] at member
  split at member
  · exact .inl (Nat.isDigit_of_mem_toDigits (by decide) (by decide) member)
  · rcases mem_cons.mp member with rfl | digit
    · exact .inr rfl
    · exact .inl (Nat.isDigit_of_mem_toDigits (by decide) (by decide) digit)

theorem toDigits_inj (same : Nat.toDigits 10 m = Nat.toDigits 10 n) : m = n := by
  rw [← Text.toList_toString, ← Text.toList_toString] at same
  exact Text.toString_injective (String.toList_inj.mp same)

theorem minus_not_digit : Nat.toDigits 10 n ≠ '-' :: rest := by
  intro same
  have digit : ('-' : Char).isDigit = true :=
    Nat.isDigit_of_mem_toDigits (b := 10) (by decide) (by decide) (by rw [same]; simp)
  exact absurd digit (by decide)

theorem integer_inj {n : Int} (same : (toString m).toList = (toString n).toList) : m = n := by
  rw [toList_toString_int, toList_toString_int] at same
  split_ifs at same
  · have := toDigits_inj same
    omega
  · exact absurd same minus_not_digit
  · exact absurd same.symm minus_not_digit
  · have := toDigits_inj (cons.inj same).2
    omega

/-! ## Values -/

/-- The kind of value a text starts, by its first character. -/
def kindOf (c : Char) : Nat :=
  if c = 'n' then 0 else if c = 't' ∨ c = 'f' then 1 else if c = '"' then 2 else if c = '[' then 3
  else if c = '\x7b' then 4 else if numberChar c then 5 else 6

/-- The kind of a value. -/
def kind : Json → Nat
  | null => 0
  | bool _ => 1
  | str _ => 2
  | arr _ => 3
  | obj _ => 4
  | num _ | decimal _ => 5

theorem kindOf_number (number : numberChar c = true) : kindOf c = 5 := by
  have plain : c ≠ 'n' ∧ ¬ (c = 't' ∨ c = 'f') ∧ c ≠ '"' ∧ c ≠ '[' ∧ c ≠ '\x7b' := by
    refine ⟨?_, ?_, ?_, ?_, ?_⟩
    · rintro rfl; exact absurd number (by decide)
    · rintro (rfl | rfl) <;> exact absurd number (by decide)
    · rintro rfl; exact absurd number (by decide)
    · rintro rfl; exact absurd number (by decide)
    · rintro rfl; exact absurd number (by decide)
  simp [kindOf, plain, number]

theorem integer_ne_nil (n : Int) : (toString n).toList ≠ [] := by
  rw [toList_toString_int]
  split_ifs
  · exact Nat.toDigits_ne_nil
  · simp

theorem render_number {j : Json} (number : j.kind = 5) :
    j.render ≠ [] ∧ ∀ c ∈ j.render, numberChar c = true := by
  cases j with
  | num n =>
    refine ⟨integer_ne_nil n, fun c member => ?_⟩
    rcases mem_integer member with digit | rfl
    · simp [numberChar, digit]
    · decide
  | decimal d =>
    obtain ⟨c, member, -⟩ := d.fractional
    exact ⟨ne_nil_of_mem member, d.numeral⟩
  | null | bool _ | str _ | arr _ | obj _ => cases number

theorem render_head (j : Json) : ∃ c rest, j.render = c :: rest ∧ kindOf c = j.kind := by
  by_cases number : j.kind = 5
  · obtain ⟨some, all⟩ := render_number number
    obtain ⟨c, rest, shape⟩ := exists_cons_of_ne_nil some
    exact ⟨c, rest, shape, by rw [number]; exact kindOf_number (all c (by simp [shape]))⟩
  · cases j with
    | null => exact ⟨'n', _, rfl, rfl⟩
    | bool b => cases b <;> exact ⟨_, _, rfl, rfl⟩
    | str s => exact ⟨'"', _, rfl, rfl⟩
    | arr items => exact ⟨'[', _, rfl, rfl⟩
    | obj members => exact ⟨'\x7b', _, rfl, rfl⟩
    | num _ | decimal _ => exact absurd rfl number

theorem kind_eq {a b : Json} (same : a.render ++ rest = b.render ++ rest') : a.kind = b.kind := by
  obtain ⟨c, _, shape, kind⟩ := render_head a
  obtain ⟨c', _, shape', kind'⟩ := render_head b
  rw [shape, shape'] at same
  rw [← kind, ← kind', (cons.inj same).1]

/-- Nothing, or a character that can follow a value. -/
def Follows (rest : List Char) : Prop := ∀ c ∈ rest.head?, c = ',' ∨ c = ']' ∨ c = '\x7d'

theorem Follows.not_number (follows : Follows rest) : ∀ c ∈ rest.head?, numberChar c = false := by
  intro c first
  rcases follows c first with rfl | rfl | rfl <;> decide

theorem intercalate_cons (t : List Char) (ts : List (List Char)) :
    [','].intercalate (t :: ts) = t ++ ts.flatMap fun u => ',' :: u := by
  induction ts generalizing t with
  | nil => simp [intercalate]
  | cons u ts ih =>
    have next := ih u
    simp only [intercalate, intersperse_cons_cons, flatten_cons] at next ⊢
    rw [next]
    simp

/-- A text of one of many kinds, of which `x` is the only one that is written so before
something that can follow a value. -/
def Determined {α : Type} (write : α → List Char) (x : α) : Prop :=
  ∀ y rest rest', Follows rest → Follows rest' → write x ++ rest = write y ++ rest' →
    x = y ∧ rest = rest'

/-! ### Items and members -/

section Sequences

variable {α : Type} {write : α → List Char} {close : Char}

theorem follows_tail (ts : List (List Char)) (closes : close = ']' ∨ close = '\x7d')
    (rest : List Char) : Follows ((ts.flatMap fun u => ',' :: u) ++ close :: rest) := by
  intro c first
  cases ts with
  | nil =>
    obtain rfl := Option.some.inj first
    exact .inr closes
  | cons t ts =>
    obtain rfl := Option.some.inj first
    exact .inl rfl

theorem tail_inj (closes : close = ']' ∨ close = '\x7d') {xs ys : List α}
    (each : ∀ x ∈ xs, Determined write x) {rest rest' : List Char}
    (same : ((xs.map write).flatMap fun u => ',' :: u) ++ close :: rest =
      ((ys.map write).flatMap fun u => ',' :: u) ++ close :: rest') : xs = ys ∧ rest = rest' := by
  have apart : close ≠ ',' := by rcases closes with rfl | rfl <;> decide
  induction xs generalizing ys with
  | nil =>
    cases ys with
    | nil => exact ⟨rfl, (List.cons.inj same).2⟩
    | cons y ys => exact absurd (List.cons.inj same).1 apart
  | cons x xs ih =>
    cases ys with
    | nil => exact absurd (List.cons.inj same).1.symm apart
    | cons y ys =>
      simp only [List.map_cons, List.flatMap_cons, List.cons_append, List.append_assoc,
        List.cons.injEq, true_and] at same
      obtain ⟨rfl, tails⟩ := each x List.mem_cons_self y _ _ (follows_tail _ closes _)
        (follows_tail _ closes _) same
      obtain ⟨rfl, after⟩ := ih (fun x member => each x (List.mem_cons_of_mem _ member)) tails
      exact ⟨rfl, after⟩

/-- The items of a sequence are determined if each of them is and none is written as
the end of the sequence. -/
theorem sequence_inj (closes : close = ']' ∨ close = '\x7d') {xs ys : List α}
    (opens : ∀ (x : α) (rest rest' : List Char), write x ++ rest ≠ close :: rest')
    (each : ∀ x ∈ xs, Determined write x) {rest rest' : List Char}
    (same : [','].intercalate (xs.map write) ++ close :: rest =
      [','].intercalate (ys.map write) ++ close :: rest') : xs = ys ∧ rest = rest' := by
  cases xs with
  | nil =>
    cases ys with
    | nil => exact ⟨rfl, (List.cons.inj same).2⟩
    | cons y ys =>
      rw [List.map_cons, intercalate_cons, List.append_assoc] at same
      exact absurd same.symm (opens y _ _)
  | cons x xs =>
    cases ys with
    | nil =>
      rw [List.map_cons, intercalate_cons, List.append_assoc] at same
      exact absurd same (opens x _ _)
    | cons y ys =>
      simp only [List.map_cons, intercalate_cons] at same
      exact tail_inj closes each (congrArg (',' :: ·) same)

end Sequences

theorem renderAll_eq (items : List Json) : renderAll items = items.map render := by
  induction items with
  | nil => rfl
  | cons x xs ih => rw [renderAll, ih, map_cons]

def renderMember (m : String × Json) : List Char := quote m.1 ++ ':' :: m.2.render

theorem renderMembers_eq (members : List (String × Json)) :
    renderMembers members = members.map renderMember := by
  induction members with
  | nil => rfl
  | cons x xs ih =>
    obtain ⟨k, v⟩ := x
    rw [renderMembers, ih, map_cons]
    rfl

theorem render_ne_close (j : Json) (rest rest' : List Char) : j.render ++ rest ≠ ']' :: rest' := by
  intro same
  obtain ⟨c, _, shape, kind⟩ := render_head j
  rw [shape] at same
  obtain rfl := (List.cons.inj same).1
  have other : kindOf ']' = 6 := by decide
  rw [other] at kind
  cases j <;> cases kind

theorem determined_member {k : String} (value : Determined render v) :
    Determined renderMember (k, v) := by
  rintro ⟨l, w⟩ rest rest' follows follows' same
  simp only [renderMember, append_assoc, cons_append] at same
  obtain ⟨rfl, values⟩ := quote_append_inj same
  obtain ⟨rfl, after⟩ := value w rest rest' follows follows' (cons.inj values).2
  exact ⟨rfl, after⟩

/-! ### Numbers against numbers -/

theorem integer_ne_decimal (n : Int) (d : Decimal) : (toString n).toList ≠ d.text := by
  intro same
  obtain ⟨c, member, nodigit, nosign⟩ := d.fractional
  rcases mem_integer (same ▸ member) with digit | sign
  · rw [digit] at nodigit
    cases nodigit
  · exact nosign sign

theorem number_inj {b : Json} (number : a.kind = 5) (kinds : a.kind = b.kind)
    (texts : a.render = b.render) : a = b := by
  cases a with
  | num m =>
    cases b with
    | num n => rw [integer_inj texts]
    | decimal d => exact absurd texts (integer_ne_decimal m d)
    | null | bool _ | str _ | arr _ | obj _ => cases kinds
  | decimal d =>
    cases b with
    | num n => exact absurd texts.symm (integer_ne_decimal n d)
    | decimal e =>
      cases d
      cases e
      cases texts
      rfl
    | null | bool _ | str _ | arr _ | obj _ => cases kinds
  | null | bool _ | str _ | arr _ | obj _ => cases number

theorem determined_number (number : a.kind = 5) : Determined render a := by
  intro b rest rest' follows follows' same
  have kinds := kind_eq same
  obtain ⟨texts, after⟩ := Text.append_all_inj (render_number number).2
    (render_number (kinds.symm.trans number)).2 follows.not_number follows'.not_number same
  exact ⟨number_inj number kinds texts, after⟩

/-! ### The theorem -/

theorem determined_array (each : ∀ x ∈ items, Determined render x) :
    Determined render (arr items) := by
  intro b rest rest' _ _ same
  have kinds := kind_eq same
  cases b with
  | arr items' =>
    simp only [render, renderAll_eq, cons_append, append_assoc, cons.injEq, true_and,
      nil_append] at same
    obtain ⟨rfl, after⟩ := sequence_inj (.inl rfl) render_ne_close each same
    exact ⟨rfl, after⟩
  | null | bool _ | num _ | decimal _ | str _ | obj _ => cases kinds

theorem determined_object
    (each : ∀ m ∈ members, Determined render m.2) : Determined render (obj members) := by
  intro b rest rest' _ _ same
  have kinds := kind_eq same
  cases b with
  | obj members' =>
    simp only [render, renderMembers_eq, cons_append, append_assoc, cons.injEq,
      true_and, nil_append] at same
    have opens : ∀ (m : String × Json) (rest rest' : List Char),
        renderMember m ++ rest ≠ '\x7d' :: rest' :=
      fun m rest rest' starts => absurd (cons.inj starts).1 (by decide)
    obtain ⟨rfl, after⟩ :=
      sequence_inj (.inr rfl) opens (fun m member => determined_member (each m member)) same
    exact ⟨rfl, after⟩
  | null | bool _ | num _ | decimal _ | str _ | arr _ => cases kinds

theorem determined (a : Json) : Determined render a :=
  match a with
  | null => fun b rest rest' _ _ same => by
    have kinds := kind_eq same
    cases b with
    | null => exact ⟨rfl, append_cancel_left same⟩
    | bool _ | num _ | decimal _ | str _ | arr _ | obj _ => cases kinds
  | bool x => fun b rest rest' _ _ same => by
    have kinds := kind_eq same
    cases b with
    | bool y => cases x <;> cases y <;> simp_all [render]
    | null | num _ | decimal _ | str _ | arr _ | obj _ => cases kinds
  | num n => determined_number rfl
  | decimal d => determined_number rfl
  | str s => fun b rest rest' _ _ same => by
    have kinds := kind_eq same
    cases b with
    | str t =>
      obtain ⟨rfl, after⟩ := quote_append_inj same
      exact ⟨rfl, after⟩
    | null | bool _ | num _ | decimal _ | arr _ | obj _ => cases kinds
  | arr items => determined_array fun x _ => determined x
  | obj members => determined_object fun m _ => determined m.2
termination_by a
decreasing_by
  · rename_i member
    have := List.sizeOf_lt_of_mem member
    simp only [arr.sizeOf_spec]
    omega
  · rename_i member
    have := List.sizeOf_lt_of_mem member
    obtain ⟨k, v⟩ := m
    simp only [Prod.mk.sizeOf_spec, obj.sizeOf_spec] at this ⊢
    omega

theorem render_injective : Function.Injective render := by
  intro a b same
  have nothing : Follows [] := fun c first => by cases first
  refine (determined a b [] [] nothing nothing ?_).1
  rw [same]

end KiwiCI.Json
