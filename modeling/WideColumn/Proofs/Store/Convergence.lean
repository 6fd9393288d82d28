import WideColumn.Proofs.DataType.LogicalOrder
import WideColumn.Proofs.Store.Cells

/-!
# Last write wins

A column that is written replaces a cell unless the cell has a larger timestamp. So what many
columns leave at an address depends on which of them were written there and not on their order, as
long as no two different ones have the same timestamp, and this makes stores that received the same
columns equal.

- `Latest`: the column or cell that is left at an address, told without an order of the columns;
- `latest_foldl_putAt`: columns that are put one after the other leave it there;
- `RowData.eq_of_leaf?`: the leaves of a row and the names of its super columns tell the row;
- `insertedBy`: the columns that a sequence of batches brings, each with its address;
- `Inserting.writeAll_eq`: writes that bring the same columns have the same result;
- `last_write_wins`: batches that bring the same columns lead to the same store.
-/

namespace WideColumn.Store

/-! ## The latest column -/

section Latest

variable {written written' : Column → Prop} {stored leaf leaf' : Option Leaf}

/-- What is left of the columns that were written at an address and of the leaf that was stored
there: the column with the largest timestamp, unless a cell with a larger one was stored. -/
inductive Latest (written : Column → Prop) (stored : Option Leaf) : Option Leaf → Prop where
  | untouched (hnone : ∀ c, ¬written c) : Latest written stored stored
  | kept {value : Bytes} {timestamp : Int64} {ttl : Option Int32}
      (hstored : stored = some (.cell value timestamp ttl))
      (hnewer : ∀ c, written c → c.timestamp < timestamp) : Latest written stored stored
  | replaced {c : Column} (hc : written c)
      (hlargest : ∀ c', written c' → c'.timestamp ≤ c.timestamp)
      (hstored : NotNewer c.timestamp stored) : Latest written stored (some (.ofColumn c))

theorem NotNewer.mono {timestamp timestamp' : Int64} (h : NotNewer timestamp leaf)
    (hle : timestamp ≤ timestamp') : NotNewer timestamp' leaf :=
  fun value at' ttl hleaf => Int64.le_trans (h value at' ttl hleaf) hle

theorem Latest.congr (h : Latest written stored leaf) (hsame : ∀ c, written c ↔ written' c) :
    Latest written' stored leaf :=
  funext (fun c => propext (hsame c)) ▸ h

/-- If different columns have different timestamps, only one leaf can be left. -/
theorem Latest.unique (h : Latest written stored leaf) (h' : Latest written stored leaf')
    (hdistinct : ∀ c c', written c → written c' → c.timestamp = c'.timestamp → c = c') :
    leaf = leaf' := by
  cases h with
  | untouched hnone =>
    cases h' with
    | replaced hc => exact absurd hc (hnone _)
    | _ => rfl
  | kept hstored hnewer =>
    cases h' with
    | replaced hc _ hnot =>
      exact absurd (hnewer _ hc) (Int64.not_lt.2 (hnot _ _ _ hstored))
    | _ => rfl
  | replaced hc hlargest hnot =>
    cases h' with
    | untouched hnone => exact absurd hc (hnone _)
    | kept hstored hnewer => exact absurd (hnewer _ hc) (Int64.not_lt.2 (hnot _ _ _ hstored))
    | replaced hc' hlargest' _ =>
      -- neither column has a larger timestamp than the other
      have hsame := Int64.le_antisymm (hlargest' _ hc) (hlargest _ hc')
      rw [hdistinct _ _ hc hc' hsame]

/-- If what is left is not newer than a timestamp, nothing that was there or was written is. -/
theorem Latest.notNewer {timestamp : Int64} (h : Latest written stored leaf)
    (hleaf : NotNewer timestamp leaf) :
    (∀ c, written c → c.timestamp ≤ timestamp) ∧ NotNewer timestamp stored := by
  cases h with
  | untouched hnone => exact ⟨fun c hc => absurd hc (hnone c), hleaf⟩
  | kept hstored hnewer =>
    exact ⟨fun c hc => Int64.le_trans (Int64.le_of_lt (hnewer c hc)) (hleaf _ _ _ hstored), hleaf⟩
  | replaced hc hlargest hstored =>
    have hle := hleaf _ _ _ rfl
    exact ⟨fun c' hc' => Int64.le_trans (hlargest c' hc') hle, hstored.mono hle⟩

/-- One more column is compared with what the others left. -/
theorem Latest.put (h : Latest written stored leaf) (c : Column) :
    Latest (fun c' => written c' ∨ c' = c) stored
      (some (Leaf.overwrite c (leaf.getD (.ofColumn c)))) := by
  by_cases hnot : NotNewer c.timestamp leaf
  -- Nothing newer was left, so the column is the latest of all.
  · obtain ⟨hwritten, hstored⟩ := h.notNewer hnot
    rw [overwrite_of_notNewer hnot]
    refine .replaced (.inr rfl) (fun c' hc' => ?_) hstored
    rcases hc' with hc' | rfl
    · exact hwritten c' hc'
    · exact Int64.le_refl _
  -- A newer cell was left, and it stays.
  · simp only [NotNewer, not_forall, Int64.not_le] at hnot
    obtain ⟨value, timestamp, ttl, rfl, hlt⟩ := hnot
    have hstays : Leaf.overwrite c (.cell value timestamp ttl) = .cell value timestamp ttl :=
      if_pos hlt
    rw [Option.getD_some, hstays]
    cases h with
    | untouched hnone =>
      refine .kept rfl fun c' hc' => ?_
      rcases hc' with hc' | rfl
      · exact absurd hc' (hnone c')
      · exact hlt
    | kept hstored hnewer =>
      cases hstored
      refine .kept rfl fun c' hc' => ?_
      rcases hc' with hc' | rfl
      · exact hnewer c' hc'
      · exact hlt
    | replaced hc hlargest hnot =>
      refine .replaced (.inl hc) (fun c' hc' => ?_) hnot
      rcases hc' with hc' | rfl
      · exact hlargest c' hc'
      · exact Int64.le_of_lt hlt

/-- Columns that are put one after the other leave the latest at every address. -/
theorem latest_foldl_putAt (superColumn : Option Bytes) (name : Bytes) (stored : Option Leaf)
    (puts : List (Option Bytes × Column)) :
    Latest (fun c => (superColumn, c) ∈ puts ∧ c.name = name) stored
      (puts.foldl (putAt superColumn name) stored) := by
  -- By induction on the columns, from the last one.
  induction puts using List.reverseRecOn with
  | nil => exact .untouched fun c hc => List.not_mem_nil hc.1
  | append_singleton puts put ih =>
    rw [List.foldl_concat, putAt]
    split
    · next hplace =>
      obtain ⟨rfl, rfl⟩ := hplace
      refine (ih.put put.2).congr fun c => ?_
      rw [List.mem_append, List.mem_singleton, or_and_right]
      refine or_congr_right ⟨?_, fun h => congrArg Prod.snd h.1⟩
      rintro rfl
      exact ⟨rfl, rfl⟩
    · next hplace =>
      refine ih.congr fun c => ?_
      rw [List.mem_append, List.mem_singleton, or_and_right, iff_self_or]
      rintro ⟨rfl, rfl⟩
      exact absurd ⟨rfl, rfl⟩ hplace

end Latest

/-! ## Rows -/

/-- A row is told by its leaves and the names of its super columns. -/
theorem RowData.eq_of_leaf? {t : Table} {data data' : RowData} (h : WellFormed t data)
    (h' : WellFormed t data')
    (hsupers : ∀ superColumn, (data.leaves? superColumn).isSome =
      (data'.leaves? superColumn).isSome)
    (hleaf : ∀ superColumn name, data.leaf? superColumn name = data'.leaf? superColumn name) :
    data = data' := by
  have hleaves {type : DataType} {counters : Bool} {leaves leaves' : Leaves}
      (h : leaves.WellFormed type counters) (h' : leaves'.WellFormed type counters)
      (hsame : ∀ name, leaves.lookup name = leaves'.lookup name) : leaves = leaves' :=
    Sorted.eq_of_lookup h.increasing h.names h'.increasing h'.names
    (DataType.orderedOn_compare type)
      hsame
  cases data with
  | flat leaves =>
    cases data' with
    | flat leaves' => rw [hleaves h.2 h'.2 (hleaf none)]
    | grouped supers' => cases h.1.symm.trans h'.1
  | grouped supers =>
    cases data' with
    | flat leaves' => cases h.1.symm.trans h'.1
    | grouped supers' =>
      obtain ⟨-, hinc, hkeys, hwell⟩ := h
      obtain ⟨-, hinc', hkeys', hwell'⟩ := h'
      have hordered := DataType.orderedOn_compare t.comparator
      congr 1
      refine Sorted.eq_of_lookup hinc hkeys hinc' hkeys' hordered fun name => ?_
      have hsome : (supers.lookup name).isSome = (supers'.lookup name).isSome := hsupers (some name)
      have hname : ∀ column, ((supers.lookup name).bind fun leaves => leaves.lookup column) =
          (supers'.lookup name).bind fun leaves => leaves.lookup column := hleaf (some name)
      -- both rows have the super column, or neither has it
      cases hfound : supers.lookup name with
      | none =>
        rw [hfound, Option.isSome_none, eq_comm, Option.isSome_eq_false_iff,
          Option.isNone_iff_eq_none] at hsome
        exact hsome.symm
      | some leaves =>
        rw [hfound, Option.isSome_some, eq_comm, Option.isSome_iff_exists] at hsome
        obtain ⟨leaves', hfound'⟩ := hsome
        rw [hfound, hfound'] at hname
        have hmem := (Sorted.lookup_eq_some_iff hinc hkeys hordered).1 hfound
        have hmem' := (Sorted.lookup_eq_some_iff hinc' hkeys' hordered).1 hfound'
        rw [hfound', congrArg some (hleaves (hwell _ hmem) (hwell' _ hmem') hname)]

namespace Table

variable {t : Table} {row : Option RowData} {w : Write} {writes writes' : List Write}

/-- A write of columns begins its row and its super column. -/
theorem begun_effect (hrow : ∀ data ∈ row, RowData.WellFormed t data) (hw : t.Puts w)
    (hputs : w.puts ≠ []) :
    (t.effect w row).isSome = true ∧ ∀ superColumn,
      (((t.effect w row).bind fun data => data.leaves? superColumn).isSome = true ↔
        (row.bind fun data => data.leaves? superColumn).isSome = true ∨
          ∃ c, (superColumn, c) ∈ w.puts) := by
  have hdata := wellFormed_getD hrow
  cases w with
  | column c =>
    refine ⟨rfl, fun superColumn => ?_⟩
    have hflat : ∀ data, RowData.WellFormed t data → ∃ leaves, data = .flat leaves := by
      rintro (leaves | supers) hdata
      · exact ⟨leaves, rfl⟩
      · cases hw.1.symm.trans hdata.1
    obtain ⟨leaves, hleaves⟩ := hflat _ hdata
    rw [effect, hleaves, Write.puts]
    cases superColumn with
    | none => exact ⟨fun _ => .inr ⟨c, List.mem_singleton_self _⟩, fun _ => rfl⟩
    | some superColumn =>
      refine ⟨nofun, ?_⟩
      rintro (h | ⟨c', hc'⟩)
      · cases row with
        | none => cases h
        | some data =>
          obtain ⟨leaves, rfl⟩ := hflat data (hrow data rfl)
          cases h
      · cases List.mem_singleton.1 hc'
  | superColumn name columns =>
    obtain ⟨hsuper, hname, -⟩ := hw
    refine ⟨rfl, fun superColumn => ?_⟩
    -- a row that is new has no super columns
    have hold : (row.bind fun data => data.leaves? superColumn) =
        (row.getD t.freshRow).leaves? superColumn := by
      cases row with
      | none =>
        rw [Option.getD_none, freshRow, hsuper]
        cases superColumn <;> rfl
      | some data => rfl
    rw [effect, hold]
    generalize row.getD t.freshRow = data at hdata
    cases data with
    | flat leaves => cases hsuper.symm.trans hdata.1
    | grouped supers =>
      obtain ⟨-, hinc, hkeys, -⟩ := hdata
      cases superColumn with
      | none => simp [onSuper, RowData.leaves?, Write.puts]
      | some superColumn =>
        rw [Option.bind_some, onSuper, RowData.leaves?, Sorted.lookup_alter hinc hkeys
          (DataType.orderedOn_compare t.comparator) hname]
        split
        · next hsame =>
          subst hsame
          obtain ⟨put, hput⟩ := List.exists_mem_of_ne_nil _ hputs
          obtain ⟨c, hc, -⟩ := List.mem_map.1 hput
          exact ⟨fun _ => .inr ⟨c, List.mem_map_of_mem hc⟩, fun _ => rfl⟩
        · next hother =>
          refine ⟨.inl, fun h => h.resolve_right ?_⟩
          rintro ⟨c, hc⟩
          obtain ⟨c', -, heq⟩ := List.mem_map.1 hc
          cases heq
          exact hother rfl
  | increment => exact hw.elim
  | delete => exact hw.elim

/-- Writes of columns to one row begin the row and the super columns that they name. -/
theorem begun_foldl_effect (hcounters : t.holdsCounters = false)
    (hwrites : ∀ w ∈ writes, w.puts ≠ [] ∧ t.Puts w) :
    ∀ {row : Option RowData}, (∀ data ∈ row, RowData.WellFormed t data) →
      let row' := writes.foldl (fun row w => t.effect w row) row
      (∀ data ∈ row', RowData.WellFormed t data) ∧
        (row'.isSome = true ↔ row.isSome = true ∨ writes ≠ []) ∧ ∀ superColumn,
          ((row'.bind fun data => data.leaves? superColumn).isSome = true ↔
            (row.bind fun data => data.leaves? superColumn).isSome = true ∨
              ∃ c, (superColumn, c) ∈ writes.flatMap Write.puts) := by
  -- By induction on the writes: each finds a row that is well formed again.
  induction writes with
  | nil => exact fun hrow => ⟨hrow, by simp, by simp⟩
  | cons w writes ih =>
    intro row hrow
    obtain ⟨hputs, hw⟩ := hwrites w List.mem_cons_self
    obtain ⟨hnext, -⟩ := leaf?_effect hcounters hrow hw
    obtain ⟨hsome, hsupers⟩ := begun_effect hrow hw hputs
    obtain ⟨hwell, hrest, hbegun⟩ := ih (fun w hw => hwrites w (List.mem_cons_of_mem _ hw)) hnext
    refine ⟨hwell, ?_, fun superColumn => ?_⟩
    · rw [List.foldl_cons, hrest, hsome]
      exact ⟨fun _ => .inr (List.cons_ne_nil _ _), fun _ => .inl rfl⟩
    · rw [List.foldl_cons, hbegun, hsupers, or_assoc, List.flatMap_cons]
      simp only [List.mem_append, exists_or]

/-- Writes that bring the same columns to a row make the same of it, if no two different columns for
one address have the same timestamp. -/
theorem foldl_effect_eq_of_puts (hcounters : t.holdsCounters = false)
    (hrow : ∀ data ∈ row, RowData.WellFormed t data)
    (hwrites : ∀ w ∈ writes, w.puts ≠ [] ∧ t.Puts w)
    (hwrites' : ∀ w ∈ writes', w.puts ≠ [] ∧ t.Puts w)
    (hsame : ∀ put, put ∈ writes.flatMap Write.puts ↔ put ∈ writes'.flatMap Write.puts)
    (hdistinct : ∀ superColumn c c', (superColumn, c) ∈ writes.flatMap Write.puts →
      (superColumn, c') ∈ writes.flatMap Write.puts → c.name = c'.name →
        c.timestamp = c'.timestamp → c = c') :
    writes'.foldl (fun row w => t.effect w row) row =
    writes.foldl (fun row w => t.effect w row) row := by
  obtain ⟨hwell, hbegun, hsupers⟩ := begun_foldl_effect hcounters hwrites hrow
  obtain ⟨hwell', hbegun', hsupers'⟩ := begun_foldl_effect hcounters hwrites' hrow
  have hleaf := leaf?_foldl_effect hcounters fun w hw => (hwrites w hw).2
  have hleaf' := leaf?_foldl_effect hcounters fun w hw => (hwrites' w hw).2
  have hnil {writes : List Write} (h : ∀ w ∈ writes, w.puts ≠ [] ∧ t.Puts w) :
      writes ≠ [] ↔ ∃ put, put ∈ writes.flatMap Write.puts := by
    constructor
    · intro hne
      obtain ⟨w, hw⟩ := List.exists_mem_of_ne_nil _ hne
      obtain ⟨put, hput⟩ := List.exists_mem_of_ne_nil _ (h w hw).1
      exact ⟨put, List.mem_flatMap.2 ⟨w, hw, hput⟩⟩
    · rintro ⟨put, hput⟩ rfl
      cases hput
  rw [hnil hwrites] at hbegun
  rw [hnil hwrites'] at hbegun'
  simp only [← hsame] at hbegun' hsupers'
  -- what is left at an address is the latest of the same columns
  have hlatest (superColumn : Option Bytes) (name : Bytes) (leaf : Option Leaf) :
      Latest (fun c => (superColumn, c) ∈ writes.flatMap Write.puts ∧ c.name = name) leaf
        ((writes'.flatMap Write.puts).foldl (putAt superColumn name) leaf) :=
    (latest_foldl_putAt superColumn name leaf _).congr fun c => by rw [hsame]
  have hsameLeaf (superColumn : Option Bytes) (name : Bytes) :=
    (hlatest superColumn name (row.bind fun data => data.leaf? superColumn name)).unique
      (latest_foldl_putAt superColumn name _ _)
      fun c c' hc hc' => hdistinct superColumn c c' hc.1 hc'.1 (hc.2.trans hc'.2.symm)
  simp only [← hleaf _ _ hrow, ← hleaf' _ _ hrow] at hsameLeaf
  generalize writes.foldl (fun row w => t.effect w row) row = a at *
  generalize writes'.foldl (fun row w => t.effect w row) row = b at *
  -- and the same row and super columns are begun
  have hsome : b.isSome = a.isSome := Bool.eq_iff_iff.2 (hbegun'.trans hbegun.symm)
  cases b with
  | none =>
    cases a with
    | none => rfl
    | some data => cases hsome
  | some data' =>
    cases a with
    | none => cases hsome
    | some data =>
      have hsupers (superColumn : Option Bytes) :=
        Bool.eq_iff_iff.2 ((hsupers' superColumn).trans (hsupers superColumn).symm)
      rw [RowData.eq_of_leaf? (hwell' _ rfl) (hwell _ rfl) hsupers hsameLeaf]

end Table

/-! ## Insertions -/

/-- A column that is written, with the row and super column it goes to. -/
structure Insertion where
  table : String
  key : Bytes
  superColumn : Option Bytes
  column : Column
  deriving DecidableEq, Repr

/-- The address that a column is written to. -/
def Insertion.address (i : Insertion) : String × Bytes × Option Bytes × Bytes :=
  (i.table, i.key, i.superColumn, i.column.name)

/-- The columns that writes bring. -/
def insertions (writes : List (Bytes × String × Write)) : List Insertion :=
  writes.flatMap fun (key, name, w) => w.puts.map fun (superColumn, c) =>
  ⟨name, key, superColumn, c⟩

/-- The columns that a sequence of batches brings. -/
def insertedBy (batches : List MutationMap) : List Insertion :=
  insertions (batches.flatMap batchWrites)

/-- Writes of columns that a store accepts, none of them without columns. -/
structure Inserting (s : Store) (writes : List (Bytes × String × Write)) : Prop where
  accepted : ∀ w ∈ writes, s.verdict w = .ok ()
  columns : ∀ key name w, (key, name, w) ∈ writes →
    w.puts ≠ [] ∧ ∀ t, s.table name = .ok t → t.Puts w

variable {s s' : Store} {name : String} {key : Bytes}
    {writes writes' : List (Bytes × String × Write)}

private theorem mem_insertions {superColumn : Option Bytes} {c : Column} :
    ⟨name, key, superColumn, c⟩ ∈ insertions writes ↔
      (superColumn, c) ∈ (writesTo name key writes).flatMap Write.puts := by
  simp only [insertions, List.mem_flatMap, List.mem_map, mem_writesTo]
  constructor
  · rintro ⟨⟨key, name, w⟩, hw, put, hput, heq⟩
    cases heq
    exact ⟨w, hw, hput⟩
  · rintro ⟨w, hw, hput⟩
    exact ⟨_, hw, _, hput, rfl⟩

/-- The table of accepted columns holds no counters. -/
theorem Inserting.exists_table (h : s.Inserting writes) {w : Write} (hw : (key, name, w) ∈ writes) :
    ∃ t, s.table name = .ok t ∧ t.holdsCounters = false := by
  obtain ⟨s', hs', -⟩ := map_eq_ok.1 (h.accepted _ hw)
  obtain ⟨t, ht, t', ht', -⟩ := write_eq_ok.1 hs'
  have hputs := (h.columns key name w hw).2 t ht
  refine ⟨t, ht, ?_⟩
  cases w with
  | column c => exact (Table.putColumn_eq_ok.1 ht').1
  | superColumn name columns => exact (Table.putSuper_eq_ok.1 ht').1
  | increment => exact hputs.elim
  | delete => exact hputs.elim

/-- The tables of cells of a store are well formed. -/
structure CellsWellFormed (s : Store) : Prop where
  ordered : Ordered s
  wellFormed : ∀ name t, s.table name = .ok t → t.holdsCounters = false → t.WellFormed

/-- Only rows of tables of cells receive columns. -/
theorem Inserting.writesTo_eq_nil (h : s.Inserting writes)
    (hno : ¬∃ t, s.table name = .ok t ∧ t.holdsCounters = false) : writesTo name key writes = [] :=
  List.eq_nil_iff_forall_not_mem.2 fun _ hw => hno (h.exists_table (mem_writesTo.1 hw))

theorem Inserting.puts {t : Table} (h : s.Inserting writes) (ht : s.table name = .ok t) :
    ∀ w ∈ writesTo name key writes, w.puts ≠ [] ∧ t.Puts w := fun w hw =>
  have hcolumns := h.columns key name w (mem_writesTo.1 hw)
  ⟨hcolumns.1, hcolumns.2 t ht⟩

/-- Accepted writes put their columns one after the other. -/
theorem Inserting.leaf?_writeAll (h : s.Inserting writes) (hs : s.CellsWellFormed) (name : String)
    (key : Bytes) (superColumn : Option Bytes) (column : Bytes) :
    (writeAll writes s).2.leaf? name key superColumn column =
      ((writesTo name key writes).flatMap Write.puts).foldl (putAt superColumn column)
        (s.leaf? name key superColumn column) := by
  obtain ⟨-, -, hrows⟩ :=
    row?_writeAll hs.ordered ((writeAll_ok_iff hs.ordered.tables).2 h.accepted)
  rw [leaf?, hrows]
  -- What is known of rows is known in tables of cells, and other rows receive no writes.
  by_cases hcells : ∃ t, s.table name = .ok t ∧ t.holdsCounters = false
  · obtain ⟨t, ht, hcounters⟩ := hcells
    simp only [effect_of_table ht]
    exact Table.leaf?_foldl_effect hcounters (fun w hw => (h.puts ht w hw).2) superColumn column
      ((hs.wellFormed name t ht hcounters).row ht)
  · rw [h.writesTo_eq_nil hcells]
    rfl

/-- Accepted writes leave the latest column at each address. -/
theorem Inserting.latest (h : s.Inserting writes) (hs : s.CellsWellFormed) (name : String)
    (key : Bytes) (superColumn : Option Bytes) (column : Bytes) :
    Latest (fun c => ⟨name, key, superColumn, c⟩ ∈ insertions writes ∧ c.name = column)
      (s.leaf? name key superColumn column)
      ((writeAll writes s).2.leaf? name key superColumn column) := by
  simp only [mem_insertions, h.leaf?_writeAll hs]
  exact latest_foldl_putAt superColumn column _ _

/-- Accepted writes that bring the same columns lead to the same store. -/
theorem Inserting.writeAll_eq (h : s.Inserting writes) (h' : s.Inserting writes')
    (hs : s.CellsWellFormed) (hsame : ∀ i, i ∈ insertions writes ↔ i ∈ insertions writes')
    (hdistinct : ∀ i ∈ insertions writes, ∀ j ∈ insertions writes, i.address = j.address →
      i.column.timestamp = j.column.timestamp → i = j) :
      writeAll writes' s = writeAll writes s := by
  refine writeAll_eq_of_effect hs.ordered ((writeAll_ok_iff hs.ordered.tables).2 h.accepted)
    ((writeAll_ok_iff hs.ordered.tables).2 h'.accepted) fun name key => ?_
  by_cases hcells : ∃ t, s.table name = .ok t ∧ t.holdsCounters = false
  · -- the two runs put the same columns into this row, and at most one column a name and timestamp
    obtain ⟨t, ht, hcounters⟩ := hcells
    simp only [effect_of_table ht]
    refine Table.foldl_effect_eq_of_puts hcounters ((hs.wellFormed name t ht hcounters).row ht)
      (h.puts ht) (h'.puts ht) ?_ ?_
    · rintro ⟨superColumn, c⟩
      rw [← mem_insertions, ← mem_insertions, hsame]
    · intro superColumn c c' hc hc' hname htimestamp
      have haddress : Insertion.address ⟨name, key, superColumn, c⟩ =
          Insertion.address ⟨name, key, superColumn, c'⟩ := by
        rw [Insertion.address, hname]
        rfl
      exact congrArg Insertion.column
        (hdistinct _ (mem_insertions.2 hc) _ (mem_insertions.2 hc') haddress htimestamp)
  · -- a table that is missing or holds counters is not written to by insertions
    rw [h.writesTo_eq_nil hcells, h'.writesTo_eq_nil hcells]

/-! ## Batches -/

/-- A batch that a store accepts and that brings columns, one or more with each write, under exact
names, as all names are that are packed (`DataType.exact_of_pack`). The rows of the store have no
part in whether it accepts the batch, so it does so after other batches too. -/
structure Inserts (s : Store) (m : MutationMap) : Prop where
  accepted : s.answer (.batch m) = .ok ()
  columns : ∀ key name w, (key, name, w) ∈ batchWrites m →
    w.puts ≠ [] ∧ ∀ t, s.table name = .ok t → t.Puts w

private theorem inserting_of_batches (hs : Ordered s) {batches : List MutationMap}
    (h : ∀ m ∈ batches, s.Inserts m) : s.Inserting (batches.flatMap batchWrites) where
  accepted w hw := by
    obtain ⟨m, hm, hw⟩ := List.mem_flatMap.1 hw
    exact ((answer_batch_ok_iff hs.tables).1 (h m hm).accepted).2 w hw
  columns key name w hw := by
    obtain ⟨m, hm, hw⟩ := List.mem_flatMap.1 hw
    exact (h m hm).columns key name w hw

/-- A batch that comes after accepted writes continues them. -/
theorem Inserts.batch_after {m : MutationMap} (h : s.Inserts m) (hs : Ordered s)
    (hwrites : writeAll writes s = (.ok (), s')) :
    batch m s' = writeAll (writes ++ batchWrites m) s := by
  have houtline : s'.outline = s.outline := by
    have hkept := @outline_writeAll writes s hs.tables
    rw [hwrites] at hkept
    exact hkept
  rw [writeAll_append hwrites]
  refine batch_of_known fun request hrequest => ?_
  obtain ⟨t, ht⟩ := ((answer_batch_ok_iff hs.tables).1 h.accepted).1 request hrequest
  obtain ⟨t', ht', -⟩ := table_of_outline houtline ht
  exact ⟨t', ht'⟩

/-- A sequence of batches does what their writes do one after the other. -/
theorem run_batches (hs : Ordered s) {batches : List MutationMap} (h : ∀ m ∈ batches, s.Inserts m) :
    writeAll (batches.flatMap batchWrites) s = (.ok (), s.run (batches.map .batch)) := by
  -- By induction on the batches, from the last one.
  induction batches using List.reverseRecOn with
  | nil => rfl
  | append_singleton batches m ih =>
    have hbefore := ih fun m hm => h m (List.mem_append_left _ hm)
    have hm := h m (List.mem_append_right _ (List.mem_singleton_self m))
    have haccepted := (writeAll_ok_iff hs.tables).2 (inserting_of_batches hs h).accepted
    have hlast : s.run ((batches ++ [m]).map .batch) =
        (batch m (s.run (batches.map .batch))).2 := by
      rw [List.map_append, run, List.foldl_append]
      rfl
    refine Prod.ext haccepted ?_
    rw [hlast, hm.batch_after hs hbefore, List.flatMap_append, List.flatMap_singleton]

private theorem cellsWellFormed_run (registry : Registry) (keyspace : KeyspaceDef)
    (history : List Operation) :
    ((ofKeyspace registry keyspace).run history).CellsWellFormed :=
  ⟨ordered_run registry keyspace history, fun _ _ => wellFormed_of_cells⟩

/-- Take a reachable store and accepted batches that write columns under exact names, such that
different columns for one address have different timestamps. However the columns are ordered and
grouped into batches, the store afterwards is the same. It has at each address the column with the
largest timestamp, or the cell that was there before if its timestamp is larger still, and batches
that bring any of these columns again are accepted and leave it as it is. -/
theorem last_write_wins {registry : Registry} {keyspace : KeyspaceDef} {history : List Operation}
    {s : Store} (hs : (ofKeyspace registry keyspace).run history = s)
    {batches batches' : List MutationMap}
    (hbatches : ∀ m ∈ batches, s.Inserts m) (hbatches' : ∀ m ∈ batches', s.Inserts m)
    (hperm : (insertedBy batches).Perm (insertedBy batches'))
    (hdistinct : ∀ i ∈ insertedBy batches, ∀ j ∈ insertedBy batches, i.address = j.address →
      i ≠ j → i.column.timestamp ≠ j.column.timestamp) :
    let s' := s.run (batches.map .batch)
    s.run (batches'.map .batch) = s' ∧
      (∀ name key superColumn column,
        Latest (fun c => ⟨name, key, superColumn, c⟩ ∈ insertedBy batches ∧ c.name = column)
          (s.leaf? name key superColumn column) (s'.leaf? name key superColumn column)) ∧
      ∀ m, s.Inserts m → insertedBy [m] ⊆ insertedBy batches → batch m s' = (.ok (), s') := by
  intro s'
  have hwell : s.CellsWellFormed := hs ▸ cellsWellFormed_run registry keyspace history
  have hrun := run_batches hwell.ordered hbatches
  have hrun' := run_batches hwell.ordered hbatches'
  have h := inserting_of_batches hwell.ordered hbatches
  have h' := inserting_of_batches hwell.ordered hbatches'
  -- the hypothesis of distinct timestamps, read as one of equal columns
  have hsame : ∀ i ∈ insertedBy batches, ∀ j ∈ insertedBy batches, i.address = j.address →
      i.column.timestamp = j.column.timestamp → i = j := fun i hi j hj haddress htimestamp =>
    Decidable.byContradiction fun hne => hdistinct i hi j hj haddress hne htimestamp
  refine ⟨?_, fun name key superColumn column => ?_, fun m hm hagain => ?_⟩
  · -- the same insertions in another order or grouping
    have heq := h.writeAll_eq h' hwell (fun i => hperm.mem_iff) hsame
    rw [hrun, hrun'] at heq
    exact congrArg Prod.snd heq
  · -- no later column was put at the address than the one that stands there
    have hlatest := h.latest hwell name key superColumn column
    rw [hrun] at hlatest
    exact hlatest
  · -- the batch repeats columns, so the writes with it bring the same ones as without it
    have hboth : s.Inserting (batches.flatMap batchWrites ++ batchWrites m) := by
      have hall : ∀ m' ∈ batches ++ [m], s.Inserts m' := by
        intro m' hm'
        rcases List.mem_append.1 hm' with hm' | hm'
        · exact hbatches m' hm'
        · exact List.mem_singleton.1 hm' ▸ hm
      have hboth := inserting_of_batches hwell.ordered hall
      rwa [List.flatMap_append, List.flatMap_singleton] at hboth
    rw [hm.batch_after hwell.ordered hrun, ← hrun]
    refine h.writeAll_eq hboth hwell (fun i => ?_) hsame
    have hagain : i ∈ insertions (batchWrites m) → i ∈ insertedBy batches := fun hi =>
      hagain (by rwa [insertedBy, List.flatMap_singleton])
    rw [insertions, insertions, List.flatMap_append, List.mem_append]
    exact ⟨.inl, fun hi => hi.elim id hagain⟩

/-- A standard and a super table of opaque bytes. -/
def twoTables : KeyspaceDef :=
  standardKeyspace.withTable
    { TableDef.ofName "Keyspace1" "Super1" with
      layout := .super, subcomparator := some "BytesType" }

/-- Two batches that write two columns twice. -/
def twoBatches : List MutationMap :=
  [(MutationMap.empty.push [107] "Standard1" (.insert (.column ⟨[97], [49], 3, none⟩))).push
      [107] "Super1" (.insert (.superColumn [120] [⟨[98], [50], 1, none⟩, ⟨[99], [51], 1, none⟩])),
    (MutationMap.empty.push [107]
      "Super1" (.insert (.superColumn [120] [⟨[98], [52], 2, none⟩]))).push
      [107] "Standard1" (.insert (.column ⟨[97], [53], 1, none⟩))]

/-- The same columns, in another order and in other batches. -/
def threeBatches : List MutationMap :=
  [MutationMap.empty.push [107] "Super1"
      (.insert (.superColumn [120] [⟨[99], [51], 1, none⟩, ⟨[98], [52], 2, none⟩])),
    MutationMap.empty.push [107] "Standard1" (.insert (.column ⟨[97], [53], 1, none⟩)),
    (MutationMap.empty.push [107] "Standard1" (.insert (.column ⟨[97], [49], 3, none⟩))).push
      [107] "Super1" (.insert (.superColumn [120] [⟨[98], [50], 1, none⟩]))]

theorem last_write_wins_twoBatches :
    let s := (ofKeyspace .standard twoTables).run
      [.batch (.push .empty [107] "Standard1" (.insert (.column ⟨[97], [48], 2, none⟩)))]
    let s' := s.run (twoBatches.map .batch)
    s.run (threeBatches.map .batch) = s' ∧
      s'.leaf? "Standard1" [107] none [97] = some (.cell [49] 3 none) ∧
      s'.leaf? "Super1" [107] (some [120]) [98] = some (.cell [52] 2 none) ∧
      batch (.push .empty [107] "Standard1" (.insert (.column ⟨[97], [53], 1, none⟩))) s' =
      (.ok (), s') := by
  intro s s'
  -- the tables are read off the store once, by their comparators and their kind
  have htable {name : String} {super : Bool}
      (h : (fun t : Table => (t.comparator, t.subcomparator, t.isSuper)) <$> s.table name =
        .ok (.bytes, .bytes, super)) : ∀ t, s.table name = .ok t →
          t.comparator = .bytes ∧ t.subcomparator = .bytes ∧ t.isSuper = super := by
    intro t ht
    rw [ht] at h
    cases t
    cases h
    exact ⟨rfl, rfl, rfl⟩
  have hstandard := @htable "Standard1" false (by decide +kernel)
  have hsuper := @htable "Super1" true (by decide +kernel)
  have hexact (bs : Bytes) : Exact DataType.bytes.Accepts DataType.bytes.compare bs :=
    DataType.exact_of_pack (v := .bytes bs) rfl
  -- a batch that was accepted and whose insertions fit the kind of their table inserts
  have hinserts : ∀ m, s.answer (.batch m) = .ok () ∧ (∀ e ∈ batchWrites m, e.2.2.puts ≠ [] ∧
      e.2.1 = match e.2.2 with | .column _ => "Standard1" | _ => "Super1") → s.Inserts m := by
    rintro m ⟨haccepted, hwrites⟩
    refine ⟨haccepted, fun key name w hw => ⟨(hwrites _ hw).1, fun t ht => ?_⟩⟩
    obtain ⟨hputs, hname⟩ := hwrites _ hw
    cases w with
    | column c =>
      have hname : name = "Standard1" := hname
      rw [hname] at ht
      obtain ⟨hcomparator, -, hflat⟩ := hstandard t ht
      exact ⟨hflat, hcomparator ▸ hexact _⟩
    | superColumn superColumn columns =>
      have hname : name = "Super1" := hname
      rw [hname] at ht
      obtain ⟨hcomparator, hsubcomparator, hgrouped⟩ := hsuper t ht
      exact ⟨hgrouped, hcomparator ▸ hexact _, fun c _ => hsubcomparator ▸ hexact _⟩
    | increment => exact absurd rfl hputs
    | delete => exact absurd rfl hputs
  obtain ⟨hsame, -, hagain⟩ := @last_write_wins .standard twoTables _ s rfl twoBatches threeBatches
    (fun m hm => hinserts m (by revert m; decide +kernel))
    (fun m hm => hinserts m (by revert m; decide +kernel))
    (by decide +kernel) (by decide +kernel)
  exact ⟨hsame, by decide +kernel, by decide +kernel,
    hagain _ (hinserts _ (by decide +kernel)) (by decide +kernel)⟩

end WideColumn.Store
