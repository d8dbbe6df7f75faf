import KiwiCI.Lib.Json
import KiwiCI.Lib.Transaction
import Mathlib.Data.String.Basic

/-!
Structs as `encoding/json` writes and reads them.

A struct is written member by member, in the order its fields are declared, and a
field with the option `omitempty` is left out when it is empty.  It is read into an
existing value: the members are stored one after the other, each into the field
whose name it has, and what no field has the name of is skipped.  A value that is
tagged `json:"-"` belongs to no field, so it is neither written nor changed by
reading.

A writer carries what its text pins of a value, and the proof of it; that of a struct
is put together from those of its members.  `decode_encode` says what one field of a
value that was written and read back holds.
-/

namespace KiwiCI

open List Table

/-- A JSON number. -/
inductive Number where
  | integer (n : Int)
  | decimal (d : Decimal)
  deriving DecidableEq, Repr

/-- The JSON of a number. -/
def Number.toJson : Number → Json
  | .integer n => .num n
  | .decimal d => .decimal d

theorem Number.toJson_injective : Function.Injective Number.toJson := by
  intro a b same
  cases a <;> cases b <;> cases same <;> rfl

/-- A duration, as the text its `String` method prints. -/
structure DurationText where
  text : String
  printed : text ≠ ""
  deriving DecidableEq, Repr

/-- What decoding takes from the Go runtime: `time.ParseDuration`; the float a number is
read as, with the text `fmt.Sprint` prints for it; and `fmt.Sprint` of a decoded array,
object or null. -/
structure Runtime where
  parseDuration : String → Except String DurationText
  float : Number → Number × String
  sprint : Json → String

/-- How values of a type are written; `empty` is what `omitempty` leaves out, and `norm`
is what the text pins of a value: values that are written alike have the same one. -/
structure Writer (α : Type) where
  empty : α → Bool
  write : α → Json
  norm : α → α
  pins : ∀ a b, write a = write b → norm a = norm b
  pinsEmpty : ∀ a b, empty a = true → empty b = true → norm a = norm b

/-- How values of a type are written and read; a value is read into the one that is
there. -/
structure Codec (α : Type) extends Writer α where
  zero : α
  read : Runtime → Json → α → Except String α

/-- A member a struct is written as, unless it is left out; `copy s t` is `t` with what
the member pins of `s`. -/
structure Member (σ : Type) where
  name : String
  write : σ → Option Json
  copy : σ → σ → σ
  pins : ∀ s t, write s = write t → copy s = copy t

structure Field (σ : Type) extends Member σ where
  read : Runtime → Json → σ → Except String σ

/-! ## Fields -/

section Struct

variable {σ α : Type}

/-- A member without `omitempty`. -/
def Member.req (name : String) (w : Writer α) (get : σ → α) (set : α → σ → σ) : Member σ where
  name := name
  write s := some (w.write (get s))
  copy s := set (w.norm (get s))
  pins s t same := by rw [w.pins _ _ (Option.some.inj same)]

/-- A member with `omitempty`. -/
def Member.opt (name : String) (w : Writer α) (get : σ → α) (set : α → σ → σ) : Member σ where
  name := name
  write s := if w.empty (get s) then none else some (w.write (get s))
  copy s := set (w.norm (get s))
  pins s t same := by
    have norms : w.norm (get s) = w.norm (get t) := by
      split_ifs at same with here there
      · exact w.pinsEmpty _ _ here there
      · exact w.pins _ _ (Option.some.inj same)
    rw [norms]

/-- A field without `omitempty`. -/
def Field.req (name : String) (c : Codec α) (get : σ → α) (set : α → σ → σ) : Field σ where
  toMember := .req name c.toWriter get set
  read rt j s := return set (← c.read rt j (get s)) s

/-- A field with `omitempty`. -/
def Field.opt (name : String) (c : Codec α) (get : σ → α) (set : α → σ → σ) : Field σ where
  toMember := .opt name c.toWriter get set
  read rt j s := return set (← c.read rt j (get s)) s

/-- A struct with the given members. -/
def encode (members : List (Member σ)) (s : σ) : Json :=
  .obj (members.filterMap fun m => (m.write s).map fun v => (m.name, v))

/-- Store a member: into the field of that name, or else of that name up to case. -/
def storeMember (rt : Runtime) (fields : List (Field σ)) (s : σ) (m : String × Json) : Except String σ :=
  match (fields.find? (·.name = m.1)).or
      (fields.find? fun f => Text.lower f.name = Text.lower m.1) with
  | some f => f.read rt m.2 s
  | none => .ok s

/-- Read a struct into an existing value. -/
def decode (rt : Runtime) (fields : List (Field σ)) : Json → σ → Except String σ
  | .null, s => .ok s
  | .obj members, s => members.foldlM (storeMember rt fields) s
  | _, _ => .error "json: cannot unmarshal value into Go struct"

/-- The members of a struct. -/
def members (fields : List (Field σ)) : List (Member σ) := fields.map Field.toMember

end Struct

/-! ## What is written -/

section Encode

variable {σ : Type}

theorem mem_encoded {ms : List (Member σ)}
    (member : (name, v) ∈ ms.filterMap fun m => (m.write s).map fun v => (m.name, v)) :
    ∃ m ∈ ms, m.name = name ∧ m.write s = some v := by
  obtain ⟨m, there, shape⟩ := mem_filterMap.mp member
  obtain ⟨w, written, pair⟩ := Option.map_eq_some_iff.mp shape
  obtain ⟨rfl, rfl⟩ := Prod.mk.inj pair
  exact ⟨m, there, rfl, written⟩

/-- A struct has no member under a name that none of its fields has. -/
theorem field?_encode {ms : List (Member σ)}
    (apart : ∀ m ∈ ms, Text.lower m.name ≠ Text.lower name) :
    Json.field? name (encode ms s) = none := by
  simp only [Json.field?, encode, Option.map_eq_none_iff, find?_eq_none, mem_reverse,
    decide_eq_true_eq]
  rintro ⟨other, v⟩ there
  obtain ⟨m, member, rfl, -⟩ := mem_encoded there
  exact apart m member

theorem encode_congr {t : σ} (each : ∀ m ∈ ms, m.write s = m.write t) :
    encode ms s = encode ms t := by
  unfold encode
  rw [filterMap_congr fun m member => by rw [each m member]]

/-- Structs that are written alike have every member alike. -/
theorem encode_inj {ms : List (Member σ)} (nodup : (ms.map Member.name).Nodup)
    (same : encode ms s = encode ms t) : ∀ m ∈ ms, m.write s = m.write t := by
  have lists := Json.obj.inj same
  clear same
  induction ms with
  | nil => exact fun m none => by cases none
  | cons m ms ih =>
    rw [map_cons, nodup_cons] at nodup
    have absent : ∀ u v,
        (m.name, v) ∉ ms.filterMap fun m => (Member.write m u).map fun v => (m.name, v) := by
      intro u v member
      obtain ⟨other, there, name, -⟩ := mem_encoded member
      exact nodup.1 (mem_map.mpr ⟨other, there, name⟩)
    simp only [filterMap_cons] at lists
    cases here : m.write s with
    | none =>
      cases there : m.write t with
      | none =>
        simp only [here, there, Option.map_none] at lists
        exact forall_mem_cons.mpr ⟨by rw [here, there], ih nodup.2 lists⟩
      | some w =>
        simp only [here, there, Option.map_none, Option.map_some] at lists
        exact absurd (by rw [lists]; exact mem_cons_self) (absent s w)
    | some v =>
      cases there : m.write t with
      | none =>
        simp only [here, there, Option.map_none, Option.map_some] at lists
        exact absurd (by rw [← lists]; exact mem_cons_self) (absent t v)
      | some w =>
        simp only [here, there, Option.map_some, cons.injEq, Prod.mk.injEq, true_and] at lists
        exact forall_mem_cons.mpr ⟨by rw [here, there, lists.1], ih nodup.2 lists.2⟩

theorem foldl_copy {ms : List (Member σ)} (each : ∀ m ∈ ms, m.write s = m.write t)
    (u : σ) : ms.foldl (fun u m => m.copy s u) u = ms.foldl (fun u m => m.copy t u) u := by
  induction ms generalizing u with
  | nil => rfl
  | cons m ms ih =>
    obtain ⟨first, rest⟩ := forall_mem_cons.mp each
    rw [foldl_cons, foldl_cons, m.pins s t first, ih rest]

/-- Lists with the same images under `f` have the same under what `f` determines. -/
theorem map_determined {α β γ : Type} {f : α → β} {g : α → γ}
    (determined : ∀ a b, f a = f b → g a = g b) {as bs : List α} (same : as.map f = bs.map f) :
    as.map g = bs.map g := by
  induction as generalizing bs with
  | nil => rw [map_eq_nil_iff.mp same.symm]
  | cons a as ih =>
    cases bs with
    | nil => cases same
    | cons b bs =>
      obtain ⟨head, tail⟩ := cons.inj same
      rw [map_cons, map_cons, determined a b head, ih tail]

theorem order_norm {α : Type} (w : Writer α) {t t' : Table String α}
    (same : (t.sorted.map fun e => (e.1, w.write e.2)) =
      t'.sorted.map fun e => (e.1, w.write e.2)) :
    (t.map fun _ => w.norm).order = (t'.map fun _ => w.norm).order := by
  refine rows_injective ?_
  rw [rows_order, rows_order, sorted_map, sorted_map]
  refine congrArg _ (map_determined (fun a b entry => ?_) same)
  obtain ⟨key, value⟩ := Prod.mk.inj entry
  rw [key, w.pins _ _ value]

end Encode

/-! ## Values -/

/-- A struct, which is never empty; `norm` is put together from what its members pin. -/
def Writer.struct {σ : Type} (zero : σ) (norm : σ → σ) (members : List (Member σ))
    (nodup : (members.map Member.name).Nodup := by decide +kernel)
    (complete : ∀ s, members.foldl (fun t m => m.copy s t) zero = norm s := by
      intro s
      simp only [List.foldl_cons, List.foldl_nil, Member.opt, Member.req]
      rfl) : Writer σ where
  empty _ := false
  write := encode members
  norm := norm
  pins s t same := by rw [← complete, ← complete, foldl_copy (encode_inj nodup same)]
  pinsEmpty _ _ none := by cases none

/-- A slice, nil and empty alike. -/
def Writer.list {α : Type} (w : Writer α) : Writer (List α) where
  empty := List.isEmpty
  write items := .arr (items.map w.write)
  norm := List.map w.norm
  pins _ _ same := map_determined w.pins (Json.arr.inj same)
  pinsEmpty as bs none none' := by rw [List.isEmpty_iff.mp none, List.isEmpty_iff.mp none']

/-- A map with string keys, nil and empty alike, in key order. -/
def Writer.map {α : Type} (w : Writer α) : Writer (Table String α) where
  empty t := t.rows.isEmpty
  write t := .obj (t.sorted.map fun e => (e.1, w.write e.2))
  norm t := (t.map fun _ => w.norm).order
  pins _ _ same := order_norm w (Json.obj.inj same)
  pinsEmpty t t' none none' := by
    rw [Table.rows_injective ((List.isEmpty_iff.mp none).trans (List.isEmpty_iff.mp none').symm)]

/-- A writer with another reading of what it pins. -/
def Writer.normed {α : Type} (w : Writer α) (norm : α → α) (same : w.norm = norm) : Writer α where
  empty := w.empty
  write := w.write
  norm := norm
  pins a b := by rw [← same]; exact w.pins a b
  pinsEmpty a b := by rw [← same]; exact w.pinsEmpty a b

/-- A slice of values the text pins. -/
def Writer.plainList {α : Type} (w : Writer α) (plain : w.norm = id := by rfl) : Writer (List α) :=
  w.list.normed id (by
    change List.map w.norm = id
    rw [plain]
    exact funext List.map_id)

/-- A map of values the text pins. -/
def Writer.plainMap {α : Type} (w : Writer α) (plain : w.norm = id := by rfl) :
    Writer (Table String α) :=
  w.map.normed Table.order (by
    change (fun t => (Table.map (fun _ => w.norm) t).order) = Table.order
    rw [plain]
    exact funext fun t => congrArg Table.order t.map_id)

/-- A pointer to a value the text pins, which is never written as null. -/
def Writer.pointer {α : Type} (w : Writer α)
    (given : ∀ a, w.write a ≠ .null := by exact fun _ same => Json.noConfusion same)
    (plain : w.norm = id := by rfl) : Writer (Option α) where
  empty := Option.isNone
  write p := (p.map w.write).getD .null
  norm := id
  pins
    | none, none, _ => rfl
    | none, some b, same => absurd same.symm (given b)
    | some a, none, same => absurd same (given a)
    | some a, some b, same => by
      have pinned := w.pins a b same
      rw [plain] at pinned
      exact congrArg some pinned
  pinsEmpty p q none none' := by
    rw [Option.isNone_iff_eq_none.mp none, Option.isNone_iff_eq_none.mp none']

/-- A slice or map that may be nil, which is written as null. -/
def Writer.nullable {α : Type} (w : Writer α)
    (given : ∀ a, w.write a ≠ .null := by exact fun _ same => Json.noConfusion same) :
    Writer (Option α) where
  empty := Option.isNone
  write p := (p.map w.write).getD .null
  norm := Option.map w.norm
  pins
    | none, none, _ => rfl
    | none, some b, same => absurd same.symm (given b)
    | some a, none, same => absurd same (given a)
    | some a, some b, same => congrArg some (w.pins a b same)
  pinsEmpty p q none none' := by
    rw [Option.isNone_iff_eq_none.mp none, Option.isNone_iff_eq_none.mp none']

namespace Codec

/-- A struct that is read as well. -/
def struct {σ : Type} (zero : σ) (norm : σ → σ) (fields : List (Field σ))
    (nodup : ((members fields).map Member.name).Nodup := by decide +kernel)
    (complete : ∀ s, (members fields).foldl (fun t m => m.copy s t) zero = norm s := by
      intro s
      simp only [members, List.map_cons, List.map_nil, List.foldl_cons, List.foldl_nil, Field.opt,
        Field.req, Member.opt, Member.req]
      rfl) : Codec σ where
  toWriter := .struct zero norm (members fields) nodup complete
  zero := zero
  read rt := decode rt fields

/-- A scalar: null leaves it as it is. -/
def scalar {α : Type} [DecidableEq α] (zero : α) (write : α → Json)
    (inj : ∀ a b, write a = write b → a = b) (get : Json → Option α) : Codec α where
  zero := zero
  empty a := a = zero
  write := write
  norm := id
  pins := inj
  pinsEmpty _ _ none none' := (of_decide_eq_true none).trans (of_decide_eq_true none').symm
  read
    | _, .null, a => .ok a
    | _, j, _ => ((get j).map Except.ok).getD (.error "json: cannot unmarshal value into Go value")

def string : Codec String :=
  scalar "" .str (fun _ _ => Json.str.inj) fun
    | .str s => some s
    | _ => none

/-- A boolean. -/
def bool : Codec Bool :=
  scalar false .bool (fun _ _ => Json.bool.inj) fun
    | .bool b => some b
    | _ => none

/-- A 64-bit integer. -/
def int : Codec Int :=
  scalar 0 .num (fun _ _ => Json.num.inj) fun
    | .num n => if -2 ^ 63 ≤ n ∧ n < 2 ^ 63 then some n else none
    | _ => none

def float : Codec Number where
  zero := .integer 0
  empty n := n = .integer 0
  write := Number.toJson
  norm := id
  pins _ _ same := Number.toJson_injective same
  pinsEmpty _ _ none none' := (of_decide_eq_true none).trans (of_decide_eq_true none').symm
  read
    | _, .null, a => .ok a
    | rt, .num n, _ => .ok (rt.float (.integer n)).1
    | rt, .decimal d, _ => .ok (rt.float (.decimal d)).1
    | _, _, _ => .error "json: cannot unmarshal value into Go value of type float64"

/-- A slice. -/
def list {α : Type} (c : Codec α) : Codec (List α) where
  toWriter := .list c.toWriter
  zero := []
  read
    | _, .null, _ => .ok []
    | rt, .arr items, _ => items.mapM fun j => c.read rt j c.zero
    | _, _, _ => .error "json: cannot unmarshal value into Go value of type slice"

/-- A map; what is read is added to the entries that are there. -/
def map {α : Type} (c : Codec α) : Codec (Table String α) where
  toWriter := .map c.toWriter
  zero := .empty
  read
    | _, .null, _ => .ok .empty
    | rt, .obj entries, t =>
      entries.foldlM (fun (t : Table String α) e => return t.put e.1 (← c.read rt e.2 c.zero)) t
    | _, _, _ => .error "json: cannot unmarshal value into Go value of type map"

/-- A slice of values the text pins. -/
def plainList {α : Type} (c : Codec α) (plain : c.norm = id := by rfl) : Codec (List α) where
  toWriter := c.toWriter.plainList plain
  zero := []
  read := (list c).read

def strings : Codec (List String) := plainList string

/-- A map of strings. -/
def stringMap : Codec (Table String String) where
  toWriter := string.toWriter.plainMap
  zero := .empty
  read := (map string).read

/-- A pointer to a value the text pins. -/
def pointer {α : Type} (c : Codec α)
    (given : ∀ a, c.write a ≠ .null := by exact fun _ same => Json.noConfusion same)
    (plain : c.norm = id := by rfl) : Codec (Option α) where
  toWriter := .pointer c.toWriter given plain
  zero := none
  read
    | _, .null, _ => .ok none
    | rt, j, p => return some (← c.read rt j (p.getD c.zero))

/-- A slice or map that may be nil. -/
def nullable {α : Type} (c : Codec α)
    (given : ∀ a, c.write a ≠ .null := by exact fun _ same => Json.noConfusion same) :
    Codec (Option α) where
  toWriter := .nullable c.toWriter given
  zero := none
  read
    | _, .null, _ => .ok none
    | rt, j, p => return some (← c.read rt j (p.getD c.zero))

/-- A duration, `none` when it is unset. -/
def duration : Codec (Option DurationText) where
  zero := none
  empty _ := false
  write d := (d.map fun d => Json.str d.text).getD .null
  norm := id
  pins
    | none, none, _ => rfl
    | some ⟨_, _⟩, some ⟨_, _⟩, rfl => rfl
  pinsEmpty _ _ none := by cases none
  read
    | _, .null, _ => .ok none
    | rt, .str s, _ => if s = "" then .ok none else return some (← rt.parseDuration s)
    | _, _, _ => .error "duration must be a string"

end Codec

theorem Writer.map_congr {α : Type} {w : Writer α} {t t' : Table String α}
    (same : ∀ k, t.get? k = t'.get? k) :
    (Writer.map w).empty t = (Writer.map w).empty t' ∧
      (Writer.map w).write t = (Writer.map w).write t' := by
  have sorted := sorted_congr same
  have rows : t.rows.isEmpty = t'.rows.isEmpty := by
    rw [← isEmpty_sorted, ← isEmpty_sorted, sorted]
  refine ⟨rows, ?_⟩
  simp only [Writer.map, sorted]

theorem Field.write_stringMap {σ : Type} {name : String} {get : σ → Table String String}
    {set : Table String String → σ → σ} {s t : σ} (same : ∀ k, (get s).get? k = (get t).get? k) :
    (Field.opt name Codec.stringMap get set).write s =
      (Field.opt name Codec.stringMap get set).write t := by
  obtain ⟨empty, write⟩ := Writer.map_congr (w := Codec.string.toWriter) same
  change (if (Codec.map Codec.string).empty (get s) then none
    else some ((Codec.map Codec.string).write (get s))) = _
  rw [show (Codec.map Codec.string).empty (get s) = _ from empty,
    show (Codec.map Codec.string).write (get s) = _ from write]
  rfl

/-! ## What is read -/

section Decode

variable {σ α : Type} {rt : Runtime} {fields : List (Field σ)}

def Field.Leaves {β : Type} (f : Field σ) (part : σ → β) : Prop :=
  ∀ rt j s s', f.read rt j s = .ok s' → part s' = part s

/-- Storing into the field keeps a property. -/
def Field.Preserves (f : Field σ) (p : σ → Prop) : Prop :=
  ∀ rt j s s', f.read rt j s = .ok s' → p s → p s'

/-- Reading a value keeps a property. -/
def Codec.Preserves (c : Codec α) (p : α → Prop) : Prop :=
  ∀ rt j a a', c.read rt j a = .ok a' → p a → p a'

structure Field.Stores (f : Field σ) (c : Codec α) (get : σ → α) (set : α → σ → σ) : Prop where
  write : ∀ s, f.write s = some (c.write (get s)) ∨ f.write s = none ∧ c.empty (get s) = true
  read : ∀ rt j s s', f.read rt j s = .ok s' ↔ ∃ a, c.read rt j (get s) = .ok a ∧ set a s = s'

theorem Field.stores_req (name : String) (c : Codec α) (get : σ → α) (set : α → σ → σ) :
    (Field.req name c get set).Stores c get set where
  write _ := .inl rfl
  read rt j s s' := by simp only [Field.req, bind_ok_iff, pure_ok_iff]

theorem Field.stores_opt (name : String) (c : Codec α) (get : σ → α) (set : α → σ → σ) :
    (Field.opt name c get set).Stores c get set where
  write s := by
    simp only [Field.opt, Member.opt]
    split
    · exact .inr ⟨rfl, by assumption⟩
    · exact .inl rfl
  read rt j s s' := by simp only [Field.opt, bind_ok_iff, pure_ok_iff]

theorem Field.Stores.leaves {β : Type} {f : Field σ} {get : σ → α}
    {set : α → σ → σ} (stores : f.Stores c get set) {part : σ → β}
    (apart : ∀ a s, part (set a s) = part s) : f.Leaves part := by
  intro rt j s s' ran
  obtain ⟨a, -, rfl⟩ := (stores.read rt j s s').mp ran
  exact apart a s

theorem Field.Stores.preserves {f : Field σ} {get : σ → α} {set : α → σ → σ}
    (stores : f.Stores c get set) {p : σ → Prop} (reads : c.Preserves q)
    (start : ∀ s, p s → q (get s)) (stored : ∀ a s, q a → p s → p (set a s)) :
    f.Preserves p := by
  intro rt j s s' ran holds
  obtain ⟨a, read, rfl⟩ := (stores.read rt j s s').mp ran
  exact stored a s (reads rt j _ a read (start s holds)) holds

theorem Field.Stores.preserves_apart {f : Field σ} {get : σ → α}
    {set : α → σ → σ} (stores : f.Stores c get set) {p : σ → Prop}
    (apart : ∀ a s, p s → p (set a s)) : f.Preserves p :=
  stores.preserves (fun _ _ _ _ _ _ => trivial) (fun _ _ => trivial) fun a s _ => apart a s

section Apart

variable {name : String} {c : Codec α} {get : σ → α} {set : α → σ → σ}

@[simp] theorem Field.name_req : (Field.req name c get set).name = name := rfl

@[simp] theorem Field.name_opt : (Field.opt name c get set).name = name := rfl

@[simp] theorem Field.leaves_req {β : Type} {part : σ → β}
    (apart : ∀ a s, part (set a s) = part s) : (Field.req name c get set).Leaves part :=
  (Field.stores_req ..).leaves apart

@[simp] theorem Field.leaves_opt {β : Type} {part : σ → β}
    (apart : ∀ a s, part (set a s) = part s) : (Field.opt name c get set).Leaves part :=
  (Field.stores_opt ..).leaves apart

@[simp] theorem Field.preserves_req {p : σ → Prop} (apart : ∀ a s, p s → p (set a s)) :
    (Field.req name c get set).Preserves p :=
  (Field.stores_req ..).preserves_apart apart

@[simp] theorem Field.preserves_opt {p : σ → Prop} (apart : ∀ a s, p s → p (set a s)) :
    (Field.opt name c get set).Preserves p :=
  (Field.stores_opt ..).preserves_apart apart

end Apart

theorem Codec.Preserves.list (reads : c.Preserves p)
    (zero : p c.zero) : (Codec.list c).Preserves fun items => ∀ a ∈ items, p a := by
  intro rt j items items' ran _ a member
  cases j with
  | null =>
    rw [← Except.ok.inj ran] at member
    cases member
  | arr values =>
    obtain ⟨v, -, read⟩ := forall₂_mem_right (mapM_ok ran) member
    exact reads rt v _ a read zero
  | _ => cases ran

theorem store_cases (ran : storeMember rt fields s m = .ok s') :
    s' = s ∨ ∃ f ∈ fields, f.read rt m.2 s = .ok s' := by
  unfold storeMember at ran
  split at ran
  · rename_i f found
    refine .inr ⟨f, ?_, ran⟩
    rcases Option.or_eq_some_iff.mp found with exact_ | ⟨-, folded⟩
    · exact mem_of_find?_eq_some exact_
    · exact mem_of_find?_eq_some folded
  · exact .inl (Except.ok.inj ran).symm

theorem decode_preserves (each : ∀ f ∈ fields, f.Preserves p)
    (ran : decode rt fields j s = .ok s') (holds : p s) : p s' := by
  unfold decode at ran
  split at ran
  · rw [← Except.ok.inj ran]
    exact holds
  · rename_i entries
    refine foldlM_rel (r := fun s s' => p s → p s') (fun _ => id)
      (fun first second => second ∘ first) entries (fun m _ s s' stored => ?_) ran holds
    rcases store_cases stored with rfl | ⟨f, member, stored⟩
    · exact id
    · exact each f member _ _ _ _ stored
  · cases ran

theorem find?_name (nodup : (fields.map fun f => f.name).Nodup)
    (member : f ∈ fields) : fields.find? (·.name = f.name) = some f := by
  obtain ⟨g, found⟩ : ∃ g, fields.find? (·.name = f.name) = some g :=
    Option.isSome_iff_exists.mp (find?_isSome.mpr ⟨f, member, decide_eq_true rfl⟩)
  have same : g.name = f.name := by simpa using find?_some found
  rw [found, inj_on_of_nodup_map nodup (mem_of_find?_eq_some found) member same]

theorem store_own (nodup : (fields.map fun f => f.name).Nodup) (member : f ∈ fields)
    (v : Json) (s : σ) : storeMember rt fields s (f.name, v) = f.read rt v s := by
  unfold storeMember
  rw [find?_name nodup member]
  rfl

/-- Members of other names leave what the other fields leave alone. -/
theorem foldlM_others {β : Type} (nodup : (fields.map fun f => f.name).Nodup) {get : σ → β}
    {some : List (Field σ)} (within : some ⊆ fields)
    (others : ∀ g ∈ some, g.Leaves get)
    (ran : ((members some).filterMap fun m => (m.write w).map fun v => (m.name, v)).foldlM
      (storeMember rt fields) s = .ok s') : get s' = get s := by
  induction some generalizing s with
  | nil => rw [← Except.ok.inj ran]
  | cons g rest ih =>
    rw [members, map_cons, filterMap_cons] at ran
    have later := fun {s} => ih (s := s) (fun f member => within (mem_cons_of_mem _ member))
      fun f member => others f (mem_cons_of_mem _ member)
    cases written : g.write w with
    | none =>
      simp only [written, Option.map_none] at ran
      exact later ran
    | some v =>
      simp only [written, Option.map_some] at ran
      obtain ⟨mid, first, tail⟩ := foldlM_cons_ok_iff.mp ran
      rw [store_own nodup (within mem_cons_self)] at first
      rw [later tail, others g mem_cons_self _ _ _ _ first]

/-- A part of a struct that one field stores: after writing and reading back it is what
that field makes of what it wrote. -/
theorem decode_encode {β : Type} (nodup : (fields.map fun f => f.name).Nodup) {f : Field σ}
    (member : f ∈ fields) {get : σ → β}
    (others : ∀ g ∈ fields, g.name ≠ f.name → g.Leaves get)
    (ran : decode rt fields (encode (members fields) w) s = .ok s') :
    (f.write w = none ∧ get s' = get s) ∨
      ∃ v u u', f.write w = some v ∧ get u = get s ∧ f.read rt v u = .ok u' ∧ get s' = get u' := by
  obtain ⟨before, after, shape⟩ := append_of_mem member
  have apart : ∀ g, g ∈ before ∨ g ∈ after → g.name ≠ f.name := by
    rw [shape, map_append, map_cons, nodup_append, nodup_cons] at nodup
    rintro g (here | there) same
    · exact nodup.2.2 _ (mem_map_of_mem here) _ mem_cons_self same
    · exact nodup.2.1.1 (mem_map.mpr ⟨g, there, same⟩)
  have early : before ⊆ fields := fun g there => by rw [shape]; simp [there]
  have late : after ⊆ fields := fun g there => by rw [shape]; simp [there]
  have ran : ((members fields).filterMap fun m => (m.write w).map fun v => (m.name, v)).foldlM
      (storeMember rt fields) s = .ok s' := ran
  have parts : members fields = members before ++ f.toMember :: members after := by
    rw [members, shape, map_append, map_cons]
    rfl
  rw [parts, filterMap_append, foldlM_append] at ran
  obtain ⟨u, first, ran⟩ := bind_ok_iff.mp ran
  have start := foldlM_others nodup early
    (fun g there => others g (early there) (apart g (.inl there))) first
  have rest {t t' : σ} (tail : ((members after).filterMap fun m =>
      (m.write w).map fun v => (m.name, v)).foldlM (storeMember rt fields) t = .ok t') : get t' = get t :=
    foldlM_others nodup late (fun g there => others g (late there) (apart g (.inr there))) tail
  rw [filterMap_cons] at ran
  cases written : f.write w with
  | none =>
    simp only [written, Option.map_none] at ran
    exact .inl ⟨rfl, (rest ran).trans start⟩
  | some v =>
    simp only [written, Option.map_some] at ran
    obtain ⟨u', stored, ran⟩ := foldlM_cons_ok_iff.mp ran
    rw [store_own nodup member] at stored
    exact .inr ⟨v, u, u', rfl, start, stored, rest ran⟩

/-- A struct whose fields all read back what they wrote, as long as what is read into is
`ready` for them, is read back whole. -/
theorem decode_restores (ready : σ → Prop) (nodup : (fields.map fun f => f.name).Nodup)
    (start : ready s) (each : ∀ f ∈ fields, ∀ u, ready u → ready (f.copy w u) ∧
      ∃ v, f.write w = some v ∧ f.read rt v u = .ok (f.copy w u)) :
    decode rt fields (encode (members fields) w) s =
      .ok ((members fields).foldl (fun t m => m.copy w t) s) := by
  have reads : ∀ rest, rest ⊆ fields → ∀ u, ready u →
      ((members rest).filterMap fun m => (m.write w).map fun v => (m.name, v)).foldlM
        (storeMember rt fields) u = .ok ((members rest).foldl (fun t m => m.copy w t) u) := by
    intro rest
    induction rest with
    | nil =>
      intro _ u _
      rfl
    | cons f rest ih =>
      intro within u set
      have member : f ∈ fields := within mem_cons_self
      obtain ⟨kept, v, written, read⟩ := each f member u set
      have tail := ih (fun g there => within (mem_cons_of_mem _ there)) _ kept
      rw [members, map_cons, filterMap_cons, foldl_cons]
      simp only [written, Option.map_some]
      rw [foldlM_cons, store_own nodup member, read]
      exact tail
  exact reads fields (Subset.refl _) s start

end Decode

theorem Field.req_restores {σ α : Type} {c : Codec α} {get : σ → α} {set : α → σ → σ} {w u : σ}
    (restores : c.read rt (c.write (get w)) (get u) = .ok (c.norm (get w))) :
    ∃ v, (Field.req name c get set).write w = some v ∧
      (Field.req name c get set).read rt v u = .ok ((Field.req name c get set).copy w u) :=
  ⟨_, rfl, by simp only [Field.req, restores]; rfl⟩

/-! ## What is written and read back -/

section Keeps

variable {σ α β : Type}

/-- A part of a value that is still there when the value is written and read back; a
value that is left out has the part of the zero value. -/
structure Codec.Keeps (c : Codec α) (part : α → β) : Prop where
  empty : ∀ a, c.empty a = true → part a = part c.zero
  read : ∀ rt w a, c.read rt (c.write w) c.zero = .ok a → part a = part w

theorem Codec.keeps_int : Codec.int.Keeps id where
  empty _ none := of_decide_eq_true none
  read rt w a ran := by
    change ((if _ then some w else none : Option Int).map Except.ok).getD _ = _ at ran
    split at ran
    · exact (Except.ok.inj ran).symm
    · cases ran

theorem Codec.Keeps.list (keeps : c.Keeps part) :
    (Codec.list c).Keeps (List.map part) where
  empty items none := by
    rw [isEmpty_iff.mp none]
    rfl
  read rt items items' ran := by
    have read : (items.map c.write).mapM (fun j => c.read rt j c.zero) = .ok items' := ran
    have each := mapM_ok read
    rw [forall₂_map_left_iff] at each
    clear ran read
    induction each with
    | nil => rfl
    | cons first _ ih => rw [map_cons, map_cons, keeps.read rt _ _ first, ih]

/-- A struct keeps what the codec of one of its fields keeps. -/
theorem Field.Stores.keeps {norm : σ → σ}
    {complete : ∀ s, (members fields).foldl (fun t m => m.copy s t) zero = norm s}
    {c : Codec α} {get : σ → α} {set : α → σ → σ} (stores : f.Stores c get set)
    (member : f ∈ fields) (law : ∀ a s, get (set a s) = a)
    (others : ∀ g ∈ fields, g.name ≠ f.name → g.Leaves get) {part : α → β}
    (keeps : c.Keeps part) (start : get zero = c.zero) :
    (Codec.struct zero norm fields nodup complete).Keeps fun s => part (get s) where
  empty _ none := by cases none
  read rt w s ran := by
    change decode rt fields (encode (members fields) w) zero = .ok s at ran
    have apart : (fields.map fun f => f.name).Nodup := by
      rwa [members, map_map] at nodup
    rcases decode_encode apart member others ran with
      ⟨out, same⟩ | ⟨v, u, u', written, kept, ran, same⟩
    · rcases stores.write w with held | ⟨-, empty⟩
      · rw [held] at out
        cases out
      · rw [same, start, keeps.empty _ empty]
    · rcases stores.write w with held | ⟨none, -⟩
      · obtain ⟨a, read, rfl⟩ := (stores.read rt v u u').mp ran
        rw [written] at held
        rw [Option.some.inj held, kept, start] at read
        rw [same, law, keeps.read rt _ a read]
      · rw [none] at written
        cases written

end Keeps

end KiwiCI
