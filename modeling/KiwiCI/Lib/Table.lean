import Mathlib.Algebra.Order.BigOperators.Group.Finset
import Mathlib.Data.List.AList
import Mathlib.Data.List.Sort

/-!
Keyed tables: finite maps with at most one row per primary key, over Mathlib's
`AList`, with the statements a relational store is written in.

`put` is an upsert, `delete` a delete by key, `modify` an update of the row
under one key, `deleteWhere` a delete by predicate, `select` the keys of the
rows a predicate admits, in key order.  `sum` adds a quantity over all rows and
`count` counts them; `sum_eq_add_delete` and `sum_put` say how one row's share
changes, which is all a conservation argument needs.
-/

namespace KiwiCI

open List AList

variable {β : Type}

/-- A table with primary key `κ` and rows `α`. -/
def Table (κ α : Type) := AList fun _ : κ => α

namespace Table

variable {κ α : Type}

/-- The table without rows. -/
def empty : Table κ α := (∅ : AList fun _ : κ => α)

instance : Inhabited (Table κ α) := ⟨empty⟩

/-- The rows, each with its key. -/
def rows (t : Table κ α) : List (Sigma fun _ : κ => α) := t.entries

/-- Delete every row `p` admits. -/
def deleteWhere (p : κ → α → Bool) (t : Table κ α) : Table κ α :=
  (⟨t.rows.filter fun e => !p e.1 e.2, t.nodupKeys.sublist List.filter_sublist⟩ :
    AList fun _ : κ => α)

/-- The keys of the rows `p` admits, in key order. -/
def select [LE κ] [DecidableLE κ] (p : κ → α → Bool) (t : Table κ α) : List κ :=
  ((t.rows.filter fun e => p e.1 e.2).map Sigma.fst).insertionSort (· ≤ ·)

/-- The sum of `f` over all rows. -/
def sum {M : Type} [AddCommMonoid M] (f : κ → α → M) (t : Table κ α) : M :=
  (t.rows.map fun e => f e.1 e.2).sum

/-- Every row rewritten, under its own key. -/
def map {β : Type} (f : κ → α → β) (t : Table κ α) : Table κ β :=
  (⟨t.rows.map (.map id f), by
    rw [List.NodupKeys, List.keys, List.map_map]
    exact t.nodupKeys⟩ : AList fun _ : κ => β)

/-- How many rows `p` admits. -/
def count (p : κ → α → Bool) (t : Table κ α) : ℕ :=
  t.sum fun k row => if p k row then 1 else 0

theorem sum_map {M : Type} [AddCommMonoid M] (f : κ → α → β) (g : κ → β → M) (t : Table κ α) :
    (t.map f).sum g = t.sum fun k row => g k (f k row) := by
  simp [sum, map, rows, Function.comp_def, Sigma.map]

@[simp] theorem sum_empty {M : Type} [AddCommMonoid M] (f : κ → α → M) :
    (empty : Table κ α).sum f = 0 := rfl

theorem nodup_select [LE κ] [DecidableLE κ] (p : κ → α → Bool) (t : Table κ α) :
    (t.select p).Nodup := by
  refine (perm_insertionSort _ _).nodup_iff.mpr ?_
  exact (keys_nodup t).sublist (filter_sublist.map Sigma.fst)

variable [DecidableEq κ]

/-- The row under `k`. -/
def get? (t : Table κ α) (k : κ) : Option α := AList.lookup k t

/-- Insert the row under `k`, replacing the one that is there. -/
def put (k : κ) (row : α) (t : Table κ α) : Table κ α := AList.insert k row t

/-- Delete the row under `k`. -/
def delete (k : κ) (t : Table κ α) : Table κ α := AList.erase k t

/-- Update the row under `k`; nothing happens when there is none. -/
def modify (k : κ) (f : α → α) (t : Table κ α) : Table κ α :=
  match t.get? k with
  | some row => t.put k (f row)
  | none => t

variable {k k' : κ} {row : α} {t : Table κ α}

theorem mem_rows_iff : (⟨k, row⟩ : Sigma fun _ : κ => α) ∈ t.rows ↔ t.get? k = some row :=
  mem_lookup_iff.symm

@[simp] theorem get?_empty (k : κ) : (empty : Table κ α).get? k = none := rfl

theorem get?_put (k k' : κ) (row : α) (t : Table κ α) :
    (t.put k row).get? k' = if k' = k then some row else t.get? k' := by
  by_cases same : k' = k
  · subst same
    rw [if_pos rfl]
    exact lookup_insert t
  · rw [if_neg same]
    exact lookup_insert_ne same

@[simp] theorem get?_put_self (k : κ) (row : α) (t : Table κ α) :
    (t.put k row).get? k = some row := by
  simp [get?_put]

theorem get?_put_ne (row : α) (t : Table κ α) (differ : k' ≠ k) :
    (t.put k row).get? k' = t.get? k' := by
  simp [get?_put, differ]

theorem get?_delete (k k' : κ) (t : Table κ α) :
    (t.delete k).get? k' = if k' = k then none else t.get? k' := by
  by_cases same : k' = k
  · subst same
    rw [if_pos rfl]
    exact lookup_erase k' t
  · rw [if_neg same]
    exact lookup_erase_ne same

theorem modify_of_get? (found : t.get? k = some row) (f : α → α) :
    t.modify k f = t.put k (f row) := by
  rw [modify, found]

theorem modify_of_absent (absent : t.get? k = none) (f : α → α) : t.modify k f = t := by
  rw [modify, absent]

theorem get?_modify (k k' : κ) (f : α → α) (t : Table κ α) :
    (t.modify k f).get? k' = if k' = k then (t.get? k).map f else t.get? k' := by
  unfold modify
  cases found : t.get? k with
  | none =>
    by_cases same : k' = k
    · simp [same, found]
    · simp [same]
  | some row => simp [get?_put]

theorem get?_modify_ne (f : α → α) (t : Table κ α) (differ : k' ≠ k) :
    (t.modify k f).get? k' = t.get? k' := by
  simp [get?_modify, differ]

/-- Of several puts under one key the last one stays. -/
theorem get?_foldl_put_last (entries : List (κ × α)) (t : Table κ α) (k : κ) :
    (entries.foldl (fun t entry => t.put entry.1 entry.2) t).get? k =
      ((entries.filter fun entry => entry.1 = k).getLast?.map Prod.snd).or (t.get? k) := by
  induction entries generalizing t with
  | nil => rfl
  | cons head rest ih =>
    rw [foldl_cons, ih, filter_cons]
    by_cases here : head.1 = k
    · rw [if_pos (decide_eq_true here), getLast?_cons, ← here, get?_put_self]
      cases (rest.filter fun entry => entry.1 = head.1).getLast? <;> rfl
    · rw [if_neg (by simp [here]), get?_put_ne _ _ (Ne.symm here)]

theorem get?_foldl_put_of_not_mem {entries : List (κ × α)} (t : Table κ α)
    (other : k ∉ entries.map Prod.fst) :
    (entries.foldl (fun t entry => t.put entry.1 entry.2) t).get? k = t.get? k := by
  have none : entries.filter (fun entry => entry.1 = k) = [] := filter_eq_nil_iff.mpr
    fun entry member same => other (mem_map.mpr ⟨entry, member, of_decide_eq_true same⟩)
  rw [get?_foldl_put_last, none]
  rfl

/-- What is there after several puts was there before or was put. -/
theorem get?_foldl_put {entries : List (κ × α)}
    (found : (entries.foldl (fun t entry => t.put entry.1 entry.2) t).get? k = some row) :
    t.get? k = some row ∨ (k, row) ∈ entries := by
  rw [get?_foldl_put_last] at found
  cases last : (entries.filter fun entry => entry.1 = k).getLast? with
  | none => exact .inl (by rwa [last] at found)
  | some entry =>
    rw [last] at found
    cases found
    obtain ⟨member, same⟩ := mem_filter.mp (mem_of_getLast? last)
    exact .inr (of_decide_eq_true same ▸ member)

theorem get?_foldl_put_of_mem {entries : List (κ × α)} (t : Table κ α)
    (member : k ∈ entries.map Prod.fst) :
    ∃ row, (entries.foldl (fun t entry => t.put entry.1 entry.2) t).get? k = some row := by
  obtain ⟨entry, there, rfl⟩ := mem_map.mp member
  have some : (entries.filter fun other => other.1 = entry.1) ≠ [] :=
    ne_nil_of_mem (mem_filter.mpr ⟨there, decide_eq_true rfl⟩)
  rw [get?_foldl_put_last, getLast?_eq_some_getLast some]
  exact ⟨_, rfl⟩

theorem get?_foldl_put_of_nodup {entries : List (κ × α)} (t : Table κ α)
    (nodup : (entries.map Prod.fst).Nodup) (member : entry ∈ entries) :
    (entries.foldl (fun t entry => t.put entry.1 entry.2) t).get? entry.1 = some entry.2 := by
  induction entries generalizing t with
  | nil => cases member
  | cons head rest ih =>
    rw [map_cons, nodup_cons] at nodup
    rcases mem_cons.mp member with rfl | there
    · rw [foldl_cons, get?_foldl_put_of_not_mem _ nodup.1]
      simp
    · exact ih _ nodup.2 there

/-- The rows of a table put over another: its own rows win. -/
theorem get?_foldl_rows (t own : Table κ α) (k : κ) :
    (own.rows.foldl (fun t e => t.put e.1 e.2) t).get? k = (own.get? k).or (t.get? k) := by
  have pairs : own.rows.foldl (fun t e => t.put e.1 e.2) t =
      (own.rows.map fun e => (e.1, e.2)).foldl (fun t entry => t.put entry.1 entry.2) t := by
    rw [foldl_map]
  have names : (own.rows.map fun e => (e.1, e.2)).map Prod.fst = own.rows.keys := by
    rw [map_map]
    rfl
  rw [pairs]
  cases held : own.get? k with
  | some row =>
    have member : (k, row) ∈ own.rows.map fun e => (e.1, e.2) :=
      mem_map.mpr ⟨⟨k, row⟩, mem_rows_iff.mpr held, rfl⟩
    exact get?_foldl_put_of_nodup t (names ▸ own.nodupKeys) member
  | none =>
    refine get?_foldl_put_of_not_mem t fun member => ?_
    obtain ⟨⟨_, row⟩, there, rfl⟩ := mem_map.mp (names ▸ member : k ∈ own.rows.keys)
    rw [mem_rows_iff.mp there] at held
    cases held

theorem get?_deleteWhere_iff (p : κ → α → Bool) (k : κ) (row : α) (t : Table κ α) :
    (t.deleteWhere p).get? k = some row ↔ t.get? k = some row ∧ p k row = false := by
  rw [← mem_rows_iff, ← mem_rows_iff]
  simp [deleteWhere, rows]

theorem mem_select [LE κ] [DecidableLE κ] :
    k ∈ t.select p ↔ ∃ row, t.get? k = some row ∧ p k row = true := by
  simp only [select, mem_insertionSort, mem_map, mem_filter]
  constructor
  · rintro ⟨⟨k', row⟩, ⟨member, admitted⟩, rfl⟩
    exact ⟨row, mem_rows_iff.mp member, admitted⟩
  · rintro ⟨row, held, admitted⟩
    exact ⟨⟨k, row⟩, ⟨mem_rows_iff.mpr held, admitted⟩, rfl⟩

/-- The rows with their keys, in key order. -/
def sorted [LE κ] [DecidableLE κ] (t : Table κ α) : List (κ × α) :=
  (t.select fun _ _ => true).filterMap fun k => (t.get? k).map (k, ·)

theorem mem_sorted [LE κ] [DecidableLE κ] :
    entry ∈ t.sorted ↔ t.get? entry.1 = some entry.2 := by
  obtain ⟨k, row⟩ := entry
  simp only [sorted, mem_filterMap, Option.map_eq_some_iff, Prod.mk.injEq]
  constructor
  · rintro ⟨_, -, _, held, rfl, rfl⟩
    exact held
  · intro held
    exact ⟨k, mem_select.mpr ⟨row, held, rfl⟩, row, held, rfl, rfl⟩

/-- The keys in order are determined by which keys there are. -/
theorem keys_congr [LinearOrder κ] {t' : Table κ β}
    (same : ∀ k, (t.get? k).isSome = (t'.get? k).isSome) :
    (t.select fun _ _ => true) = t'.select fun _ _ => true := by
  refine Perm.eq_of_pairwise (fun _ _ _ _ => le_antisymm)
    (pairwise_insertionSort _ _) (pairwise_insertionSort _ _) ?_
  refine (perm_ext_iff_of_nodup (nodup_select _ t) (nodup_select _ t')).mpr fun k => ?_
  simp [mem_select, ← Option.isSome_iff_exists, same]

theorem sorted_congr [LinearOrder κ] {t' : Table κ α} (same : ∀ k, t.get? k = t'.get? k) :
    t.sorted = t'.sorted := by
  have keys := keys_congr fun k => congrArg Option.isSome (same k)
  simp only [sorted, keys, same]

theorem map_fst_sorted [LE κ] [DecidableLE κ] (t : Table κ α) :
    t.sorted.map Prod.fst = t.select fun _ _ => true := by
  rw [sorted, map_filterMap]
  have kept : ∀ k ∈ t.select fun _ _ => true,
      ((t.get? k).map (k, ·)).map Prod.fst = some k := by
    intro k member
    obtain ⟨row, held, -⟩ := mem_select.mp member
    simp [held]
  exact (filterMap_congr kept).trans filterMap_some

/-- The rows are found again under their keys. -/
theorem filterMap_keys (t : Table κ α) (f : κ → α → β) :
    t.rows.keys.filterMap (fun k => (t.get? k).map (f k)) = t.rows.map fun e => f e.1 e.2 := by
  rw [List.keys, filterMap_map, ← filterMap_eq_map]
  refine filterMap_congr fun e member => ?_
  simp [mem_rows_iff.mp member]

theorem sorted_perm [LE κ] [DecidableLE κ] (t : Table κ α) :
    t.sorted.Perm (t.rows.map fun e => (e.1, e.2)) := by
  have names : (t.select fun _ _ => true).Perm t.rows.keys := by
    simpa [select, List.keys] using perm_insertionSort _ _
  exact (names.filterMap _).trans (.of_eq (t.filterMap_keys Prod.mk))

/-- Tables with the same rows differ in their order only. -/
theorem rows_perm {t' : Table κ α} (same : ∀ k, t.get? k = t'.get? k) : t.rows.Perm t'.rows := by
  refine lookup_ext t.nodupKeys t'.nodupKeys fun k row => ?_
  change t.get? k = some row ↔ t'.get? k = some row
  rw [same]

theorem isEmpty_sorted [LE κ] [DecidableLE κ] (t : Table κ α) :
    t.sorted.isEmpty = t.rows.isEmpty := by
  have length := t.sorted_perm.length_eq
  rw [length_map] at length
  cases sorted : t.sorted <;> cases rows : t.rows <;> simp_all

theorem rows_put_of_absent (absent : t.get? k = none) (row : α) :
    (t.put k row).rows = ⟨k, row⟩ :: t.rows := by
  have fresh : k ∉ t.rows.keys := lookup_eq_none.mp absent
  change ⟨k, row⟩ :: kerase k t.rows = _
  rw [kerase_of_notMem_keys fresh]

omit [DecidableEq κ] in
theorem rows_injective : Function.Injective (rows : Table κ α → _) := fun _ _ same =>
  ext same

/-- Tables that list the same keys in the same order and have the same rows are
equal. -/
theorem eq_of_keys (keys : t.rows.keys = t'.rows.keys)
    (same : ∀ k, t.get? k = t'.get? k) : t = t' := by
  have restored (t : Table κ α) : t.rows.keys.filterMap (fun k => (t.get? k).map (Sigma.mk k)) =
      t.rows := by
    rw [filterMap_keys, map_id']
  apply rows_injective
  rw [← restored t, ← restored t', keys]
  simp only [same]

theorem get?_map (f : κ → α → β) (k : κ) (t : Table κ α) :
    (t.map f).get? k = (t.get? k).map (f k) :=
  dlookup_map₂ (l := t.rows) (f := f) k

theorem map_congr {f g : κ → α → β} {t : Table κ α}
    (agree : ∀ k row, t.get? k = some row → f k row = g k row) : t.map f = t.map g := by
  refine rows_injective (map_congr_left fun e member => ?_)
  rw [Sigma.map, Sigma.map, agree e.1 e.2 (mem_rows_iff.mp member)]

section Order

/-- The table with its rows in key order. -/
def order [LE κ] [DecidableLE κ] (t : Table κ α) : Table κ α :=
  (⟨t.sorted.map fun e => ⟨e.1, e.2⟩, by
    have keys : (t.sorted.map fun e => (⟨e.1, e.2⟩ : Sigma fun _ : κ => α)).keys =
        t.select fun _ _ => true := by
      rw [← map_fst_sorted, List.keys, List.map_map]
      rfl
    rw [List.NodupKeys, keys]
    exact nodup_select _ t⟩ : AList fun _ : κ => α)

theorem rows_order [LE κ] [DecidableLE κ] (t : Table κ α) :
    t.order.rows = t.sorted.map fun e => ⟨e.1, e.2⟩ := rfl

@[simp] theorem get?_order [LE κ] [DecidableLE κ] (t : Table κ α) (k : κ) :
    t.order.get? k = t.get? k := by
  refine Option.ext fun row => ?_
  rw [← mem_rows_iff, rows_order]
  constructor
  · intro member
    obtain ⟨e, there, shape⟩ := mem_map.mp member
    obtain ⟨rfl, same⟩ := Sigma.mk.inj shape
    rw [← eq_of_heq same]
    exact mem_sorted.mp there
  · exact fun held => mem_map.mpr ⟨(k, row), mem_sorted.mpr held, rfl⟩

theorem order_congr [LinearOrder κ] {t' : Table κ α} (same : ∀ k, t.get? k = t'.get? k) :
    t.order = t'.order :=
  rows_injective (by rw [rows_order, rows_order, sorted_congr same])

theorem get?_of_order [LE κ] [DecidableLE κ] {t t' : Table κ α} (same : t.order = t'.order) (k : κ) :
    t.get? k = t'.get? k := by
  rw [← get?_order t, same, get?_order]

theorem sorted_map [LinearOrder κ] (f : α → β) (t : Table κ α) :
    (t.map fun _ => f).sorted = t.sorted.map fun e => (e.1, f e.2) := by
  have keys : ((t.map fun _ => f).select fun _ _ => true) = t.select fun _ _ => true :=
    keys_congr fun k => by rw [get?_map, Option.isSome_map]
  rw [sorted, sorted, keys, map_filterMap]
  refine filterMap_congr fun k _ => ?_
  rw [get?_map, Option.map_map, Option.map_map]
  rfl

theorem order_map [LinearOrder κ] (f : α → β) (t : Table κ α) :
    (t.map fun _ => f).order = t.order.map fun _ => f := by
  refine rows_injective ?_
  have mapped : (t.order.map fun _ => f).rows = t.order.rows.map fun e => ⟨e.1, f e.2⟩ := rfl
  rw [mapped, rows_order, rows_order, sorted_map, map_map, map_map]
  rfl

omit [DecidableEq κ] in
theorem map_id (t : Table κ α) : (t.map fun _ => id) = t :=
  rows_injective (List.map_id _)

end Order

-- from here on a table in key order is known by its lookups and rows only
attribute [irreducible] order

section Sum

variable {M : Type} [AddCommMonoid M] (f : κ → α → M)

theorem rows_delete (k : κ) (t : Table κ α) : (t.delete k).rows = List.kerase k t.rows := rfl

/-- Splitting off one key: the total is that key's share plus the rest. -/
theorem sum_eq_add_delete (k : κ) (t : Table κ α) :
    t.sum f = (t.get? k).elim 0 (f k) + (t.delete k).sum f := by
  cases found : t.get? k with
  | none =>
    have absent : k ∉ t.rows.keys := lookup_eq_none.mp found
    simp [sum, rows_delete, kerase_of_notMem_keys absent]
  | some row =>
    have present : k ∈ t.rows.keys := lookup_isSome.mp (by rw [get?] at found; simp [found])
    obtain ⟨b, left, right, fresh, shape, erased⟩ := exists_of_kerase present
    have held : t.get? k = some b := mem_rows_iff.mp (by simp [shape])
    have same : b = row := Option.some.inj (held.symm.trans found)
    subst same
    simp only [sum, rows_delete, erased]
    simp [shape, add_left_comm]

theorem sum_put (k : κ) (row : α) (t : Table κ α) :
    (t.put k row).sum f = f k row + (t.delete k).sum f := by
  rfl

theorem sum_put_of_get? (found : t.get? k = some old) (new : α) :
    (t.put k new).sum f + f k old = t.sum f + f k new := by
  rw [sum_put, sum_eq_add_delete f k t, found]
  simp only [Option.elim]
  ac_rfl

theorem sum_put_of_absent (absent : t.get? k = none) (row : α) :
    (t.put k row).sum f = t.sum f + f k row := by
  rw [sum_put, sum_eq_add_delete f k t, absent]
  simp [add_comm]

variable {f}

theorem sum_congr (agree : ∀ k row, t.get? k = some row → f k row = g k row) :
    t.sum f = t.sum g := by
  refine congrArg List.sum (List.map_congr_left ?_)
  rintro ⟨k, row⟩ member
  exact agree k row (mem_rows_iff.mp member)

/-- Tables with the same rows have the same sum, whatever the order of the rows. -/
theorem sum_ext {t' : Table κ α} (same : ∀ k, t.get? k = t'.get? k) : t.sum f = t'.sum f :=
  ((rows_perm same).map _).sum_eq

/-- A sum only reads what the rows show through `g`. -/
theorem sum_ext_map {t' : Table κ α} {g : κ → α → β} {f : κ → β → M}
    (same : ∀ k, (t.get? k).map (g k) = (t'.get? k).map (g k)) :
    (t.sum fun k row => f k (g k row)) = t'.sum fun k row => f k (g k row) := by
  have mapped : (t.map g).sum f = (t'.map g).sum f := by
    apply sum_ext
    intro k
    rw [get?_map, get?_map, same]
  rwa [sum_map, sum_map] at mapped

omit [AddCommMonoid M] in
theorem mem_keys (found : t.get? k = some row) : k ∈ t.rows.keys.toFinset :=
  mem_toFinset.mpr (mem_map.mpr ⟨⟨k, row⟩, mem_rows_iff.mpr found, rfl⟩)

/-- A sum over rows is a sum over keys, any keys that include those of the rows. -/
theorem sum_eq_finset_sum (keys : Finset κ) (covers : ∀ k row, t.get? k = some row → k ∈ keys) :
    t.sum f = ∑ k ∈ keys, (t.get? k).elim 0 (f k) := by
  have own : t.sum f = ∑ k ∈ t.rows.keys.toFinset, (t.get? k).elim 0 (f k) := by
    rw [List.sum_toFinset _ (show t.rows.keys.Nodup from t.nodupKeys), List.keys, List.map_map, sum]
    refine congrArg List.sum (map_congr_left fun e member => ?_)
    simp [mem_rows_iff.mp member]
  rw [own]
  refine Finset.sum_subset (fun k member => ?_) fun k _ absent => ?_
  · obtain ⟨⟨k, row⟩, there, rfl⟩ := mem_map.mp (mem_toFinset.mp member)
    exact covers k row (mem_rows_iff.mp there)
  · cases found : t.get? k with
    | none => rfl
    | some row => exact absurd (mem_keys found) absent

/-- A table whose row is nowhere larger has no larger sum. -/
theorem sum_le_sum {N : Type} [AddCommMonoid N] [PartialOrder N] [IsOrderedAddMonoid N]
    {t' : Table κ β} {f : κ → α → N} {g : κ → β → N}
    (le : ∀ k, (t'.get? k).elim 0 (g k) ≤ (t.get? k).elim 0 (f k)) : t'.sum g ≤ t.sum f := by
  rw [sum_eq_finset_sum (t.rows.keys.toFinset ∪ t'.rows.keys.toFinset)
      fun _ _ found => Finset.mem_union_left _ (mem_keys found),
    sum_eq_finset_sum _ fun _ _ found => Finset.mem_union_right _ (mem_keys found)]
  exact Finset.sum_le_sum fun k _ => le k

end Sum

section Count

variable {p : κ → α → Bool}

theorem count_put_of_get? (found : t.get? k = some old) (new : α) :
    (t.put k new).count p + (if p k old then 1 else 0) = t.count p + if p k new then 1 else 0 :=
  sum_put_of_get? _ found new

theorem count_put_of_absent (absent : t.get? k = none) (row : α) :
    (t.put k row).count p = t.count p + if p k row then 1 else 0 :=
  sum_put_of_absent _ absent row

theorem count_pos (found : t.get? k = some row) (admitted : p k row = true) : 0 < t.count p := by
  have split := sum_eq_add_delete (fun k row => if p k row then 1 else 0) k t
  rw [found] at split
  simp only [Option.elim, admitted, if_true] at split
  simp only [count]
  omega

theorem count_congr (agree : ∀ k row, t.get? k = some row → p k row = q k row) :
    t.count p = t.count q := by
  apply sum_congr
  intro k row found
  rw [agree k row found]

omit [DecidableEq κ] in
theorem length_select [LE κ] [DecidableLE κ] : (t.select p).length = t.count p := by
  rw [select, length_insertionSort, length_map, ← countP_eq_length_filter, count, sum]
  induction t.rows with
  | nil => rfl
  | cons e rows ih =>
    rw [countP_cons, map_cons, sum_cons, ih]
    exact Nat.add_comm _ _

theorem countP_select [LE κ] [DecidableLE κ] {q : κ → α → Bool} :
    ((t.select p).countP fun k => (t.get? k).any (q k)) = t.count fun k row => p k row && q k row := by
  rw [← length_select, countP_eq_length_filter]
  refine Perm.length_eq ((perm_ext_iff_of_nodup ((nodup_select p t).filter _)
    (nodup_select _ t)).mpr fun k => ?_)
  rw [mem_filter, mem_select, mem_select]
  cases t.get? k <;> simp

/-- A table in which no more keys are admitted has no larger count. -/
theorem count_le_count {t' : Table κ β} {q : κ → β → Bool}
    (admitted : ∀ k row', t'.get? k = some row' → q k row' = true →
      ∃ row, t.get? k = some row ∧ p k row = true) : t'.count q ≤ t.count p := by
  refine sum_le_sum fun k => ?_
  cases found : t'.get? k with
  | none => exact Nat.zero_le _
  | some row' =>
    rw [Option.elim_some]
    split <;> rename_i counted
    · obtain ⟨row, there, admits⟩ := admitted k row' found counted
      simp [there, admits]
    · exact Nat.zero_le _

theorem count_eq_zero (none : ∀ k row, t.get? k = some row → p k row = false) : t.count p = 0 := by
  rw [count_congr none]
  simp [count, sum]

omit [DecidableEq κ] in
/-- The rows split into those `q` admits and the others. -/
theorem count_split (q : κ → α → Bool) :
    t.count p = t.count (fun k row => q k row && p k row) +
      t.count fun k row => !q k row && p k row := by
  simp only [count, sum, ← sum_map_add]
  congr 1
  apply map_congr_left
  intro e _
  by_cases admitted : q e.1 e.2 = true <;> simp [admitted]

/-- Writing a row that was absent leaves fewer of the listed keys without a row. -/
theorem countP_absent_put {keys : List κ} (member : k ∈ keys) (absent : t.get? k = none) (row : α) :
    (keys.countP fun n => ((t.put k row).get? n).isNone) <
      keys.countP fun n => (t.get? n).isNone := by
  have kept (n : κ) (still : ((t.put k row).get? n).isNone = true) : (t.get? n).isNone = true := by
    by_cases same : n = k
    · simp [same] at still
    · rwa [get?_put_ne _ _ same] at still
  induction keys with
  | nil => cases member
  | cons head rest ih =>
    have below := countP_mono_left (l := rest) fun n _ => kept n
    rw [countP_cons, countP_cons]
    by_cases same : head = k
    · subst same
      simp only [get?_put_self, absent, Option.isNone_some, Option.isNone_none, if_true]
      simp only [Bool.false_eq_true, if_false]
      omega
    · have later := ih ((mem_cons.mp member).resolve_left (Ne.symm same))
      rw [get?_put_ne _ _ same]
      omega

end Count

end Table

end KiwiCI
