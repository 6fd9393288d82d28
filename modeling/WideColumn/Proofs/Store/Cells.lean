import WideColumn.Proofs.Query.Selection
import WideColumn.Proofs.Store.Rows

/-!
# The cells of a store

A leaf has an address: a table, a row key, the name of a super column if there are super columns,
and its own name. Columns that are written under exact names change the leaves at their addresses,
where the last of several writes with one timestamp counts, and no others.

- `Store.leaf?`: the leaf at an address;
- `Write.puts`: the columns that a write puts, with the super column they go to;
- `leaf?_writeAll`: a sequence of writes puts its columns one after the other;
- `foldl_putAt_last`: the last column at an address is the one that is left;
- `slice_of_leaf?`: a read by name answers the leaf at an address.
-/

namespace WideColumn

namespace Store

/-! ## Addresses -/

/-- The leaf of a name at the top of a row or in a super column. -/
def RowData.leaf? : RowData → Option Bytes → Bytes → Option Leaf
  | .flat leaves, none, name => leaves.lookup name
  | .grouped supers, some superColumn, name =>
    (supers.lookup superColumn).bind fun leaves => leaves.lookup name
  | _, _, _ => none

/-- The leaves at the top of a row or in a super column. -/
def RowData.leaves? : RowData → Option Bytes → Option Leaves
  | .flat leaves, none => some leaves
  | .grouped supers, some superColumn => supers.lookup superColumn
  | _, _ => none

/-- The leaf at an address. -/
def leaf? (s : Store) (table : String) (key : Bytes) (superColumn : Option Bytes) (name : Bytes) :
    Option Leaf :=
  (s.row? table key).bind fun row => row.leaf? superColumn name

/-- The leaves at the top of a row or in a super column of a table. -/
def leaves? (s : Store) (table : String) (key : Bytes) (superColumn : Option Bytes) :
    Option Leaves :=
  (s.row? table key).bind fun row => row.leaves? superColumn

/-! ## Columns that are put -/

/-- The columns that a write puts, with the super column they go to. -/
def Write.puts : Write → List (Option Bytes × Column)
  | .column c => [(none, c)]
  | .superColumn name columns => columns.map fun c => (some name, c)
  | .increment .. | .delete _ => []

/-- What a column that is put makes of the leaf at an address. -/
def putAt (superColumn : Option Bytes) (name : Bytes) (leaf : Option Leaf)
    (put : Option Bytes × Column) : Option Leaf :=
  if superColumn = put.1 ∧ name = put.2.name then
    some (Leaf.overwrite put.2 (leaf.getD (.ofColumn put.2)))
  else leaf

/-- A write of columns to a table without counters. All names are exact. -/
def Table.Puts (t : Table) : Write → Prop
  | .column c => t.isSuper = false ∧ Exact t.comparator.Accepts t.comparator.compare c.name
  | .superColumn name columns =>
    t.isSuper = true ∧ Exact t.comparator.Accepts t.comparator.compare name ∧
      ∀ c ∈ columns, Exact t.subcomparator.Accepts t.subcomparator.compare c.name
  | .increment .. | .delete _ => False

section Leaves

variable {type : DataType} {leaves : Leaves}

private theorem lookup_put (h : Leaves.WellFormed type false leaves) {c : Column}
    (hc : Exact type.Accepts type.compare c.name) (superColumn : Option Bytes) (name : Bytes) :
    (leaves.put type.compare c).lookup name =
      putAt superColumn name (leaves.lookup name) (superColumn, c) := by
  rw [Leaves.put, Sorted.lookup_alter h.increasing h.names (DataType.orderedOn_compare type) hc,
    putAt]
  by_cases hname : name = c.name
  · rw [if_pos hname, if_pos ⟨rfl, hname⟩, hname]
  · rw [if_neg hname, if_neg fun h => hname h.2]

private theorem lookup_foldl_put {columns : List Column}
    (hcolumns : ∀ c ∈ columns, Exact type.Accepts type.compare c.name)
    (superColumn : Option Bytes) (name : Bytes) :
    ∀ {leaves : Leaves}, Leaves.WellFormed type false leaves →
      (columns.foldl (fun leaves c => leaves.put type.compare c) leaves).lookup name =
        (columns.map fun c => (superColumn, c)).foldl (putAt superColumn name)
          (leaves.lookup name) := by
  induction columns with
  | nil => exact fun _ => rfl
  | cons c columns ih =>
    intro leaves h
    have hc := hcolumns c List.mem_cons_self
    rw [List.foldl_cons, ih (fun c hc => hcolumns c (List.mem_cons_of_mem _ hc)) (h.put hc.holds),
      lookup_put h hc superColumn, List.map_cons, List.foldl_cons]

end Leaves

/-- Columns for other addresses leave a leaf alone. -/
theorem foldl_putAt_of_ne {superColumn : Option Bytes} {name : Bytes}
    {puts : List (Option Bytes × Column)}
    (h : ∀ put ∈ puts, ¬(superColumn = put.1 ∧ name = put.2.name)) (leaf : Option Leaf) :
    puts.foldl (putAt superColumn name) leaf = leaf := by
  induction puts with
  | nil => rfl
  | cons put puts ih =>
    rw [List.foldl_cons, putAt, if_neg (h put List.mem_cons_self)]
    exact ih fun put hput => h put (List.mem_cons_of_mem _ hput)

/-- No cell with a larger timestamp is there. -/
def NotNewer (timestamp : Int64) (leaf : Option Leaf) : Prop :=
  ∀ value timestamp' ttl, leaf = some (.cell value timestamp' ttl) → timestamp' ≤ timestamp

theorem overwrite_of_notNewer {c : Column} {leaf : Option Leaf} (h : NotNewer c.timestamp leaf) :
    Leaf.overwrite c (leaf.getD (.ofColumn c)) = .ofColumn c := by
  have hself : ¬c.timestamp > c.timestamp := Int64.lt_irrefl
  rcases leaf with _ | ⟨value, timestamp, ttl⟩ | value
  · exact if_neg hself
  · exact if_neg (Int64.not_lt.2 (h value timestamp ttl rfl))
  · rfl

/-- Of columns with one timestamp the last one at an address is left there. -/
theorem foldl_putAt_last {superColumn : Option Bytes} {c : Column}
    {before after : List (Option Bytes × Column)} {leaf : Option Leaf}
    (hbefore : ∀ put ∈ before, put.2.timestamp = c.timestamp)
    (hafter : ∀ put ∈ after, ¬(superColumn = put.1 ∧ c.name = put.2.name))
    (hleaf : NotNewer c.timestamp leaf) :
    (before ++ (superColumn, c) :: after).foldl (putAt superColumn c.name) leaf =
      some (.ofColumn c) := by
  -- By induction on the columns before it, none of which brings a larger timestamp.
  induction before generalizing leaf with
  | nil =>
    rw [List.nil_append, List.foldl_cons, foldl_putAt_of_ne hafter, putAt, if_pos ⟨rfl, rfl⟩,
      overwrite_of_notNewer hleaf]
  | cons put before ih =>
    rw [List.cons_append, List.foldl_cons]
    refine ih (fun put hput => hbefore put (List.mem_cons_of_mem _ hput)) ?_
    have htimestamp := hbefore put List.mem_cons_self
    rw [← htimestamp] at hleaf ⊢
    rw [putAt]
    split
    · rw [overwrite_of_notNewer hleaf]
      rintro value timestamp ttl ⟨⟩
      exact Int64.le_refl _
    · exact hleaf

/-! ## Rows -/

namespace RowData

variable {t : Table} {data : RowData}

/-- A leaf is looked up among the leaves around it. -/
theorem lookup_leaves (data : RowData) (superColumn : Option Bytes) (name : Bytes) :
    ((data.leaves? superColumn).getD []).lookup name = data.leaf? superColumn name := by
  cases data with
  | flat leaves => cases superColumn <;> rfl
  | grouped supers =>
    cases superColumn with
    | none => rfl
    | some superColumn =>
      rw [leaves?, leaf?]
      cases supers.lookup superColumn <;> rfl

theorem WellFormed.leaves (hdata : WellFormed t data) (superColumn : Option Bytes) :
    Leaves.WellFormed t.leafComparator t.holdsCounters ((data.leaves? superColumn).getD []) := by
  cases data with
  | flat leaves =>
    obtain ⟨hsuper, hleaves⟩ := hdata
    rw [Table.leafComparator, hsuper]
    cases superColumn with
    | none => exact hleaves
    | some superColumn => exact Leaves.wellFormed_nil
  | grouped supers =>
    obtain ⟨hsuper, hinc, hkeys, hleaves⟩ := hdata
    rw [Table.leafComparator, hsuper]
    cases superColumn with
    | none => exact Leaves.wellFormed_nil
    | some superColumn =>
      rw [leaves?]
      cases hfound : supers.lookup superColumn with
      | none => exact Leaves.wellFormed_nil
      | some leaves =>
        -- the super column is one of the row, and the row's invariant speaks of all its leaves
        have hordered := DataType.orderedOn_compare t.comparator
        exact hleaves _ ((Sorted.lookup_eq_some_iff hinc hkeys hordered).1 hfound)

/-- A change of the leaves at the top of a row changes no others. -/
theorem leaf?_onLeaves (hdata : WellFormed t data) (hsuper : t.isSuper = false)
    (change : Leaves → Leaves) (superColumn : Option Bytes) (name : Bytes) :
    (Table.onLeaves change data).leaf? superColumn name =
      if superColumn = none then (change ((data.leaves? none).getD [])).lookup name
      else data.leaf? superColumn name := by
  cases data with
  | grouped supers => cases hsuper.symm.trans hdata.1
  | flat leaves => cases superColumn <;> rfl

/-- A change of the leaves in a super column changes no others. -/
theorem leaf?_onSuper (hdata : WellFormed t data) (hsuper : t.isSuper = true) {given : Bytes}
    (hgiven : Exact t.comparator.Accepts t.comparator.compare given) (change : Leaves → Leaves)
    (superColumn : Option Bytes) (name : Bytes) :
    (t.onSuper given change data).leaf? superColumn name =
      if superColumn = some given then (change ((data.leaves? (some given)).getD [])).lookup name
      else data.leaf? superColumn name := by
  cases data with
  | flat leaves => cases hsuper.symm.trans hdata.1
  | grouped supers =>
    obtain ⟨-, hinc, hkeys, -⟩ := hdata
    cases superColumn with
    | none => rfl
    | some superColumn =>
      -- the change of one super column is an update of the sorted entries at its name
      rw [Table.onSuper, leaf?,
        Sorted.lookup_alter hinc hkeys (DataType.orderedOn_compare t.comparator) hgiven]
      by_cases hsame : superColumn = given
      · rw [if_pos hsame, if_pos (congrArg some hsame)]
        rfl
      · rw [if_neg hsame, if_neg fun h => hsame (Option.some.inj h)]
        rfl

/-- A column that is written at the top of a row is put there. -/
theorem leaf?_put (hcounters : t.holdsCounters = false) (hsuper : t.isSuper = false)
    (hdata : WellFormed t data) {c : Column}
    (hc : Exact t.comparator.Accepts t.comparator.compare c.name)
    (superColumn : Option Bytes) (name : Bytes) :
    (Table.onLeaves (Leaves.put t.order c) data).leaf? superColumn name =
      putAt superColumn name (data.leaf? superColumn name) (none, c) := by
  have hleaves := hdata.leaves none
  rw [hcounters, Table.leafComparator, hsuper] at hleaves
  rw [leaf?_onLeaves hdata hsuper]
  split
  · next hsame =>
    rw [hsame, ← lookup_leaves]
    exact lookup_put hleaves hc none name
  · next hother => rw [putAt, if_neg fun h => hother h.1]

/-- Columns that are written into a super column are put there. -/
theorem leaf?_foldl_put (hcounters : t.holdsCounters = false) (hsuper : t.isSuper = true)
    (hdata : WellFormed t data) {given : Bytes} {columns : List Column}
    (hgiven : Exact t.comparator.Accepts t.comparator.compare given)
    (hcolumns : ∀ c ∈ columns, Exact t.subcomparator.Accepts t.subcomparator.compare c.name)
    (superColumn : Option Bytes) (name : Bytes) :
    (t.onSuper given (fun leaves => columns.foldl (fun leaves c => leaves.put t.suborder c) leaves)
        data).leaf? superColumn name =
      (columns.map fun c => (some given, c)).foldl (putAt superColumn name)
        (data.leaf? superColumn name) := by
  -- the leaves of the super column, if it has any, are well-formed, so the puts can be followed
  have hleaves := hdata.leaves (some given)
  rw [hcounters, Table.leafComparator, hsuper] at hleaves
  rw [leaf?_onSuper hdata hsuper hgiven]
  split
  · next hsame =>
    rw [hsame, ← lookup_leaves]
    exact lookup_foldl_put hcolumns (some given) name hleaves
  · -- the puts all go to the given super column, and this cell is in another one
    next hother =>
    symm
    apply foldl_putAt_of_ne
    intro put hput
    obtain ⟨c, -, rfl⟩ := List.mem_map.1 hput
    exact fun h => hother h.1

end RowData

/-! ## Writes -/

namespace Table

variable {t : Table} {row : Option RowData} {w : Write}

theorem wellFormed_getD (hrow : ∀ data ∈ row, RowData.WellFormed t data) :
    RowData.WellFormed t (row.getD t.freshRow) := by
  cases row with
  | none => exact RowData.wellFormed_freshRow t
  | some data => exact hrow data rfl

/-- A row that was never written has no leaves. -/
theorem leaf?_getD (superColumn : Option Bytes) (name : Bytes) :
    (row.getD t.freshRow).leaf? superColumn name =
      row.bind fun data => data.leaf? superColumn name := by
  cases row with
  | none =>
    rw [Option.getD_none, freshRow]
    cases t.isSuper <;> cases superColumn <;> rfl
  | some data => rfl

/-- A write of columns puts them into its row one after the other. -/
theorem leaf?_effect (hcounters : t.holdsCounters = false)
    (hrow : ∀ data ∈ row, RowData.WellFormed t data) (hw : t.Puts w) :
    (∀ data ∈ t.effect w row, RowData.WellFormed t data) ∧ ∀ superColumn name,
      ((t.effect w row).bind fun data => data.leaf? superColumn name) =
        w.puts.foldl (putAt superColumn name)
        (row.bind fun data => data.leaf? superColumn name) := by
  -- a row that is missing is taken for an empty one, which is well-formed
  have hdata := wellFormed_getD hrow
  cases w with
  | column c =>
    obtain ⟨hsuper, hc⟩ := hw
    refine ⟨?_, fun superColumn name => ?_⟩
    · rintro data ⟨⟩
      refine hdata.onLeaves fun leaves hleaves => ?_
      rw [hcounters] at hleaves ⊢
      exact hleaves.put hc.holds
    · rw [← @leaf?_getD t row]
      exact RowData.leaf?_put hcounters hsuper hdata hc superColumn name
  | superColumn name' columns =>
    obtain ⟨hsuper, hname', hcolumns⟩ := hw
    refine ⟨?_, fun superColumn name => ?_⟩
    · rintro data ⟨⟩
      refine hdata.onSuper hname'.holds fun leaves hleaves => ?_
      rw [hcounters] at hleaves ⊢
      exact hleaves.foldl_put fun c hc => (hcolumns c hc).holds
    · rw [← @leaf?_getD t row]
      exact RowData.leaf?_foldl_put hcounters hsuper hdata hname' hcolumns superColumn name
  | increment => exact hw.elim
  | delete => exact hw.elim

/-- Writes of columns to one row put them one after the other. -/
theorem leaf?_foldl_effect {writes : List Write} (hcounters : t.holdsCounters = false)
    (hwrites : ∀ w ∈ writes, t.Puts w) (superColumn : Option Bytes) (name : Bytes) :
    ∀ {row : Option RowData}, (∀ data ∈ row, RowData.WellFormed t data) →
      ((writes.foldl (fun row w => t.effect w row) row).bind fun data =>
        data.leaf? superColumn name) =
        (writes.flatMap Write.puts).foldl (putAt superColumn name)
          (row.bind fun data => data.leaf? superColumn name) := by
  -- By induction on the writes: each finds a row that is well formed again.
  induction writes with
  | nil => exact fun _ => rfl
  | cons w writes ih =>
    intro row hrow
    obtain ⟨hnext, hleaf⟩ := leaf?_effect hcounters hrow (hwrites w List.mem_cons_self)
    rw [List.foldl_cons, ih (fun w hw => hwrites w (List.mem_cons_of_mem _ hw)) hnext, hleaf,
      List.flatMap_cons, List.foldl_append]

end Table

/-- Accepted writes of columns to one row put them there one after the other and leave all other
rows alone. -/
theorem leaf?_writeAll {s : Store} {name : String} {key : Bytes} {t : Table} {writes : List Write}
    (hs : Ordered s) (ht : s.table name = .ok t) (hwell : t.WellFormed)
    (hcells : t.holdsCounters = false) (hwrites : ∀ w ∈ writes, t.Puts w)
    (haccepted : (writeAll (writes.map fun w => (key, name, w)) s).1 = .ok ()) :
    let s' := (writeAll (writes.map fun w => (key, name, w)) s).2
    (∀ name' key', ¬(name' = name ∧ key' = key) → s'.row? name' key' = s.row? name' key') ∧
      ∀ superColumn column, s'.leaf? name key superColumn column =
        (writes.flatMap Write.puts).foldl (putAt superColumn column)
          (s.leaf? name key superColumn column) := by
  obtain ⟨-, -, hrows⟩ := row?_writeAll hs haccepted
  -- the table is the same after every accepted write, so its effect can be taken from the start
  have heffect : (fun row w => s.effect name w row) = fun row w => t.effect w row := by
    funext row w
    rw [effect_of_table ht]
  refine ⟨fun name' key' hplace => ?_, fun superColumn column => ?_⟩
  · rw [hrows, writesTo_map]
    split
    · next hkey => rw [if_neg fun h => hplace ⟨h.symm, hkey.symm⟩, List.foldl_nil]
    · rw [List.foldl_nil]
  · rw [leaf?, hrows, writesTo_map, if_pos rfl, if_pos rfl, heffect]
    exact Table.leaf?_foldl_effect hcells hwrites superColumn column (hwell.row ht)

/-! ## Reading by name -/

/-- A list of one exact name selects its entry. -/
theorem select_of_lookup {α : Type} {type : DataType} {entries : Sorted Bytes α}
    (hinc : entries.Increasing type.compare) (hkeys : Sorted.Keys type.Accepts entries)
    {name : Bytes}
    (hname : Exact type.Accepts type.compare name) {v : α} (hv : entries.lookup name = some v) :
    select type.compare (.ofNames [name]) entries = [(name, v)] := by
  have hexact : ∀ name' ∈ [name], Exact type.Accepts type.compare name' :=
    fun name' hmem => List.mem_singleton.1 hmem ▸ hname
  rw [select_ofNames_of_exact hinc hkeys hexact]
  have hsame : (fun e : Bytes × α => [name].contains e.1) = fun e => e.1 == name := by
    funext e
    rw [List.contains_cons, List.contains_nil, Bool.or_false]
  exact (congrArg (fun p => entries.filter p) hsame).trans
    (Sorted.filter_eq_of_lookup hinc hkeys (DataType.orderedOn_compare type) hv)

/-- A read by one name answers the leaf at its address. -/
theorem slice_of_leaf? {t : Table} {row : RowData} (hrow : RowData.WellFormed t row)
    {superColumn : Option Bytes} {name : Bytes}
    (hsuper : ∀ s ∈ superColumn, Exact t.comparator.Accepts t.comparator.compare s)
    (hname : Exact t.leafComparator.Accepts t.leafComparator.compare name) {leaf : Leaf}
    (hleaf : row.leaf? superColumn name = some leaf) :
    t.slice row superColumn (.ofNames [name]) = [leaf.toEntry name] := by
  cases row with
  | flat leaves =>
    -- a flat row has no super columns and a grouped one no columns of its own
    cases superColumn with
    | some superColumn => cases hleaf
    | none =>
      obtain ⟨hflat, hleaves⟩ := hrow
      rw [Table.leafComparator, hflat, if_neg Bool.false_ne_true] at hname
      rw [Table.slice, Table.order, select_of_lookup hleaves.increasing hleaves.names hname hleaf]
      rfl
  | grouped supers =>
    cases superColumn with
    | none => cases hleaf
    | some superColumn =>
      obtain ⟨hgrouped, hinc, hkeys, hleaves⟩ := hrow
      obtain ⟨leaves, hfound, hleaf⟩ := Option.bind_eq_some_iff.1 hleaf
      -- found by the search and found by the exact name are the same for a name the table accepts
      have hordered := DataType.orderedOn_compare t.comparator
      have hfind : supers.find? t.order superColumn = some leaves :=
        (Sorted.find?_eq_lookup hinc hkeys hordered (hsuper superColumn rfl)).trans hfound
      have hwell := hleaves _ ((Sorted.lookup_eq_some_iff hinc hkeys hordered).1 hfound)
      rw [Table.leafComparator, hgrouped, if_pos rfl] at hname
      simp only [Table.slice, hfind]
      rw [Table.suborder, select_of_lookup hwell.increasing hwell.names hname hleaf]
      rfl

end Store

end WideColumn
