import WideColumn.Proofs.Store.Holdings
import WideColumn.Proofs.Store.Leaves

/-!
# What is listed holds something

A row is read as a list of entries. A super column is listed with the cells in it or with the
counters, whichever its table is for, so it would be listed without any if it had no leaves or
leaves of the other kind. Neither happens in the stores that handles make, and there a row counts as
live exactly if it holds a leaf.

- `RowData.Backs`, `Store.Backs`: a listed super column comes with leaves that the row holds;
- `backs_of_slice`: every entry that a store answers is backed;
- `exists_liveKeys`: the rows that count as live are those that hold a leaf.
-/

namespace WideColumn.Store

/-! ## Leaves of a super column -/

namespace Leaves

variable {type : DataType} {leaves : Leaves}

/-- No cell is left out where all leaves are cells. -/
theorem WellFormed.columns_ne_nil (h : WellFormed type false leaves) (hne : leaves ≠ []) :
    leaves.columns ≠ [] := by
  intro hnil
  have hentries := map_columns h.kind
  rw [hnil] at hentries
  exact hne (List.map_eq_nil_iff.1 hentries.symm)

/-- No counter is left out where all leaves are counters. -/
theorem WellFormed.counters_ne_nil (h : WellFormed type true leaves) (hne : leaves ≠ []) :
    leaves.counters ≠ [] := by
  intro hnil
  have hentries := map_counters h.kind
  rw [hnil] at hentries
  exact hne (List.map_eq_nil_iff.1 hentries.symm)

private theorem mem_columns {c : Column} (h : c ∈ leaves.columns) :
    (c.name, .ofColumn c) ∈ leaves := by
  obtain ⟨⟨name, leaf⟩, hmem, hc⟩ := List.mem_filterMap.1 h
  cases leaf with
  | cell value timestamp ttl =>
    cases hc
    exact hmem
  | counter => cases hc

private theorem mem_counters {c : Counter} (h : c ∈ leaves.counters) :
    (c.name, .counter c.value) ∈ leaves := by
  obtain ⟨⟨name, leaf⟩, hmem, hc⟩ := List.mem_filterMap.1 h
  cases leaf with
  | cell => cases hc
  | counter value =>
    cases hc
    exact hmem

end Leaves

/-! ## Entries -/

/-- An entry for a super column has columns or counters in it, and the row holds each of them
there. -/
def RowData.Backs (row : RowData) : Entry → Prop
  | .column _ | .counter _ => True
  | .superColumn name columns => columns ≠ [] ∧
      ∀ c ∈ columns, row.Holds (some name) c.name (.ofColumn c)
  | .superCounter name counters => counters ≠ [] ∧
      ∀ c ∈ counters, row.Holds (some name) c.name (.counter c.value)

/-- The store has a row of this key that backs the entry. -/
def Backs (s : Store) (table : String) (key : Bytes) (entry : Entry) : Prop :=
  ∃ row, s.row? table key = some row ∧ row.Backs entry

section Backs

variable {s : Store} {t : Table} {row : RowData} {parent : ColumnParent} {key : Bytes}
  {predicate : SlicePredicate} {entries : List Entry}

/-- What is read of leaves is no super column. -/
theorem RowData.backs_toEntries (row : RowData) {leaves : Leaves} :
    ∀ entry ∈ leaves.toEntries, row.Backs entry := by
  intro entry hentry
  obtain ⟨⟨name, leaf⟩, -, rfl⟩ := List.mem_map.1 hentry
  cases leaf <;> trivial

private theorem RowData.backs_slice (hfilled : row.Filled) (hwell : row.LeavesWellFormed t)
    (superColumn : Option Bytes) (predicate : SlicePredicate) :
    ∀ entry ∈ t.slice row superColumn predicate, row.Backs entry := by
  cases row with
  | flat leaves => exact backs_toEntries _
  | grouped supers =>
    cases superColumn with
    | some superColumn =>
      rw [Table.slice.eq_def]
      dsimp only
      split
      · exact backs_toEntries _
      · exact nofun
    | none =>
      intro entry hentry
      obtain ⟨⟨name, leaves⟩, hselected, rfl⟩ := List.mem_map.1 hentry
      have hmem := mem_of_mem_select hselected
      have hne : leaves ≠ [] := hfilled _ hmem
      have hleaves : Leaves.WellFormed t.subcomparator t.holdsCounters leaves := hwell.2 _ hmem
      -- The table says how the super column is read, and that is what its leaves are.
      dsimp only [Table.superEntry]
      cases hcounters : t.holdsCounters with
      | true =>
        rw [hcounters] at hleaves
        exact ⟨hleaves.counters_ne_nil hne, fun c hc => .grouped hmem (Leaves.mem_counters hc)⟩
      | false =>
        rw [hcounters] at hleaves
        exact ⟨hleaves.columns_ne_nil hne, fun c hc => .grouped hmem (Leaves.mem_columns hc)⟩

/-- Whatever a store answers about a row is backed by this row. -/
theorem backs_of_slice
    (hfilled : ∀ t, s.table parent.table = .ok t → t.Filled ∧ t.LeavesWellFormed)
    (h : s.slice key parent predicate = .ok entries) :
    ∀ entry ∈ entries, s.Backs parent.table key entry := by
  simp only [slice, bind_eq_ok] at h
  obtain ⟨t, ht, _, -, h⟩ := h
  obtain ⟨hsupers, hwell⟩ := hfilled t ht
  -- a row that is missing lists nothing
  cases hrow : t.row? key with
  | none =>
    rw [hrow] at h
    cases h
    exact List.forall_mem_nil _
  | some row =>
    rw [hrow] at h
    cases h
    obtain ⟨k, hmem⟩ := Sorted.mem_of_find? hrow
    intro entry hentry
    refine ⟨row, ?_, RowData.backs_slice (hsupers _ hmem) (hwell _ hmem) _ _ entry hentry⟩
    rw [row?, ht]
    exact hrow

end Backs

/-! ## Live rows -/

section Live

variable {s : Store} {row : RowData} {name : String}

/-- A row holds a leaf unless it is empty, if its super columns do. -/
theorem RowData.Filled.isEmpty_eq_false_iff (h : row.Filled) :
    row.isEmpty = false ↔ ∃ superColumn column leaf, row.Holds superColumn column leaf := by
  cases row with
  | flat leaves =>
    rw [isEmpty, List.isEmpty_eq_false_iff_exists_mem]
    constructor
    · rintro ⟨⟨column, leaf⟩, hleaf⟩
      exact ⟨none, column, leaf, .flat hleaf⟩
    · rintro ⟨_, column, leaf, hholds⟩
      cases hholds with
      | flat hleaf => exact ⟨_, hleaf⟩
  | grouped supers =>
    rw [isEmpty, List.isEmpty_eq_false_iff_exists_mem]
    constructor
    · -- no super column is empty, so the first one has a leaf
      rintro ⟨⟨superColumn, leaves⟩, hsuper⟩
      obtain ⟨⟨column, leaf⟩, hleaf⟩ := List.exists_mem_of_ne_nil _ (h _ hsuper)
      exact ⟨some superColumn, column, leaf, .grouped hsuper hleaf⟩
    · rintro ⟨_, column, leaf, hholds⟩
      cases hholds with
      | grouped hsuper _ => exact ⟨_, hsuper⟩

private theorem row?_eq_some_iff {t : Table} {key : Bytes} (hs : s.Ordered)
    (ht : s.table name = .ok t) :
    s.row? name key = some row ↔ (key, row) ∈ t.rows := by
  have hrows : t.rows.Increasing compare := hs.rows name t ht
  have hfind : s.row? name key = t.rows.find? compare key := by
    rw [row?, ht]
    rfl
  rw [hfind, hrows.find?_eq_lookup]
  exact hrows.lookup_eq_some_iff

/-- A live row is one in which the store holds a leaf. -/
theorem exists_live_iff {t : Table} {key : Bytes} (hs : s.Ordered) (hfilled : t.Filled)
    (ht : s.table name = .ok t) :
    (∃ row, (key, row) ∈ t.rows ∧ row.isEmpty = false) ↔
      ∃ superColumn column leaf, s.Holds ⟨name, key, superColumn, column⟩ leaf := by
  constructor
  · rintro ⟨row, hmem, hlive⟩
    obtain ⟨superColumn, column, leaf, hholds⟩ :=
      (RowData.Filled.isEmpty_eq_false_iff (hfilled _ hmem)).1 hlive
    exact ⟨superColumn, column, leaf, row, (row?_eq_some_iff hs ht).2 hmem, hholds⟩
  · rintro ⟨superColumn, column, leaf, row, hrow, hholds⟩
    have hmem := (row?_eq_some_iff hs ht).1 hrow
    refine ⟨row, hmem, (RowData.Filled.isEmpty_eq_false_iff (hfilled _ hmem)).2 ?_⟩
    exact ⟨superColumn, column, leaf, hholds⟩

/-- The rows of a table that count as live are those that hold a leaf, each counted once. -/
theorem exists_liveKeys (hs : s.Ordered) (hfilled : ∀ t, s.table name = .ok t → t.Filled) :
    ∃ keys : List Bytes, keys.Nodup ∧ s.liveRowCount name = keys.length ∧
      ∀ key, key ∈ keys ↔ ∃ superColumn column leaf,
      s.Holds ⟨name, key, superColumn, column⟩ leaf := by
  -- a table that is missing has no live rows
  cases hfind : s.tables.find? compare name with
  | none =>
    refine ⟨[], List.nodup_nil, by rw [liveRowCount, hfind]; rfl, fun key => ⟨nofun, ?_⟩⟩
    rintro ⟨superColumn, column, leaf, row, hrow, -⟩
    rw [row?, table, hfind] at hrow
    cases hrow
  | some t =>
    have ht : s.table name = .ok t := by rw [table, hfind]
    -- the keys increase, so no row is counted twice
    have hkeys : (t.rows.map (·.1)).Nodup :=
      Sorted.Increasing.nodup_keys (hs.rows name t ht) (fun _ _ => trivial) orderedOn_keys
    refine ⟨(t.rows.filter fun e => !e.2.isEmpty).map (·.1), ?_, ?_, fun key => ?_⟩
    · exact hkeys.sublist (List.filter_sublist.map _)
    · rw [List.length_map, ← List.countP_eq_length_filter, liveRowCount, hfind]
    · rw [← exists_live_iff hs (hfilled t ht) ht]
      simp [List.mem_map, List.mem_filter]

end Live

end WideColumn.Store
