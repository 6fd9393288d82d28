import WideColumn.Proofs.Store.Cells
import WideColumn.Proofs.Store.Supers
import WideColumn.Proofs.Store.Trace

/-!
# What the checks of writes are worth

A table checks names and values before it writes them. That alone does not make all stored data
valid: an increment does not check the super column that it names, and a value is checked by the
validator of the name that was written, but stored under the name that was there before if the two
compare equal.

- `RowData.Valid`: all names decode under their types, and all values under the validators of their
  names;
- `RowData.Checked`: what the checks ensure, whatever is written;
- `checked_trace`: all rows of every reachable state are checked;
- `RowData.Checked.valid`: they are valid if the names that were written make up for what is not
  checked.
-/

namespace WideColumn.Store

/-- A name that can be stored under a type. -/
def IsName (type : DataType) (name : Bytes) : Prop := name ≠ [] ∧ type.Accepts name

/-- The super column that an increment names. -/
def Write.countedIn : Write → Option Bytes
  | .increment given _ => given
  | .column _ | .superColumn .. | .delete _ => none

/-- The names of the columns that were written to a table. -/
def columnNames (moments : List Moment) (table : String) : List Bytes :=
  (tableWrites moments table).flatMap fun w => w.puts.map fun put => put.2.name

/-- The names of the super columns in which counters of a table were incremented. -/
def countedNames (moments : List Moment) (table : String) : List Bytes :=
  (tableWrites moments table).filterMap Write.countedIn

/-! ## Leaves -/

/-- The name of a leaf decodes under a type, and a cell under the validator of its name. -/
def LeafValid (validator : Bytes → DataType) (type : DataType) (name : Bytes) : Leaf → Prop
  | .cell value _ _ => IsName type name ∧ (validator name).Accepts value
  | .counter _ => IsName type name

/-- What the checks of a table tell about a stored leaf, given the names of columns that were
written. -/
inductive LeafChecked (validator : Bytes → DataType) (counters : Bool) (type : DataType)
    (written : List Bytes) : Bytes × Leaf → Prop where
  /-- The value of a cell was written under a name that compares equal to the stored one. -/
  | cell {name column value : Bytes} {timestamp : Int64} {ttl : Option Int32}
      (hname : IsName type name)
      (hstored : name ∈ written) (hwritten : column ∈ written)
      (hsame : type.compare name column = .eq)
      (hvalue : (validator column).Accepts value) :
      LeafChecked validator counters type written (name, .cell value timestamp ttl)
  /-- Counters are in counter tables only. -/
  | counter {name : Bytes} {value : Int64} (hcounters : counters = true)
      (hname : IsName type name) :
      LeafChecked validator counters type written (name, .counter value)

section Leaves

variable {t : Table} {type : DataType} {written : List Bytes} {leaves : Leaves} {e : Bytes × Leaf}

theorem LeafChecked.isName (h : LeafChecked t.validator t.holdsCounters type written e) :
    IsName type e.1 := by
  cases h with
  | cell hname => exact hname
  | counter _ hname => exact hname

/-- A checked leaf is valid if names that compare equal have the same validator. -/
theorem LeafChecked.valid (h : LeafChecked t.validator t.holdsCounters type written e)
    (hvalidators : ∀ a ∈ written, ∀ b ∈ written, type.compare a b = .eq →
      t.validator a = t.validator b) :
    LeafValid t.validator type e.1 e.2 := by
  cases h with
  | @cell name column value timestamp ttl hname hstored hwritten hsame hvalue =>
    refine ⟨hname, ?_⟩
    rw [hvalidators name hstored column hwritten hsame]
    exact hvalue
  | counter _ hname => exact hname

/-- A column that is written leaves a cell that is checked, under whichever name. -/
theorem LeafChecked.overwrite {name : Bytes} {leaf : Leaf}
    (h : LeafChecked t.validator t.holdsCounters type written (name, leaf))
    (hcells : t.holdsCounters = false) {c : Column} (hc : (t.validator c.name).Accepts c.value)
    (hwritten : c.name ∈ written) (hsame : type.compare name c.name = .eq) :
    LeafChecked t.validator t.holdsCounters type written (name, leaf.overwrite c) := by
  cases h with
  | cell hname hstored hwritten' hsame' hvalue =>
    rw [Leaf.overwrite]
    split
    · exact .cell hname hstored hwritten' hsame' hvalue
    · exact .cell hname hstored hwritten hsame hc
  | counter hcounters => cases hcells.symm.trans hcounters

private theorem forall_checked_put
    (h : ∀ e ∈ leaves, LeafChecked t.validator t.holdsCounters type written e)
    (hcells : t.holdsCounters = false) {c : Column} (hc : t.Takes type c)
    (hwritten : c.name ∈ written) :
    ∀ e ∈ leaves.put type.compare c, LeafChecked t.validator t.holdsCounters type written e := by
  have hself : type.compare c.name c.name = .eq := (DataType.orderedOn_compare type).self hc.1.2
  apply Sorted.forall_entry_alter h
  · have hnew : LeafChecked t.validator t.holdsCounters type written (c.name, .ofColumn c) :=
      .cell hc.1 hwritten hwritten hself hc.2
    exact hnew.overwrite hcells hc.2 hwritten hself
  · intro name leaf hsame hleaf
    exact hleaf.overwrite hcells hc.2 hwritten hsame

private theorem forall_checked_foldl_put {columns : List Column} (hcells : t.holdsCounters = false)
    (hcolumns : ∀ c ∈ columns, t.Takes type c ∧ c.name ∈ written) :
    ∀ {leaves : Leaves}, (∀ e ∈ leaves, LeafChecked t.validator t.holdsCounters type written e) →
      ∀ e ∈ columns.foldl (fun leaves c => leaves.put type.compare c) leaves,
        LeafChecked t.validator t.holdsCounters type written e := by
  -- By induction on the columns: each is put into leaves that are checked again.
  induction columns with
  | nil => exact fun h => h
  | cons c columns ih =>
    intro leaves h
    obtain ⟨hc, hwritten⟩ := hcolumns c List.mem_cons_self
    apply ih fun c hc => hcolumns c (List.mem_cons_of_mem _ hc)
    exact forall_checked_put h hcells hc hwritten

private theorem forall_checked_increment
    (h : ∀ e ∈ leaves, LeafChecked t.validator t.holdsCounters type written e)
    (hcounters : t.holdsCounters = true) {c : Counter} (hname : IsName type c.name) :
    ∀ e ∈ leaves.increment type.compare c,
    LeafChecked t.validator t.holdsCounters type written e := by
  have hbump : ∀ name leaf, IsName type name →
      LeafChecked t.validator t.holdsCounters type written (name, Leaf.bump c.value leaf) := by
    intro name leaf hname
    cases leaf <;> exact .counter hcounters hname
  apply Sorted.forall_entry_alter h
  · exact hbump c.name _ hname
  · intro name leaf _ hleaf
    exact hbump name leaf hleaf.isName

end Leaves

/-! ## Rows -/

/-- All names of a row decode under their types, and its values under the validators of their
names. -/
def RowData.Valid (t : Table) : RowData → Prop
  | .flat leaves => t.isSuper = false ∧ ∀ e ∈ leaves, LeafValid t.validator t.comparator e.1 e.2
  | .grouped supers => t.isSuper = true ∧ ∀ e ∈ supers, IsName t.comparator e.1 ∧
      ∀ e' ∈ e.2, LeafValid t.validator t.subcomparator e'.1 e'.2

/-- What the checks of a table tell about a row, given the names of columns that were written and of
super columns that were counted in. Only the latter need not decode. -/
def RowData.Checked (t : Table) (written counted : List Bytes) : RowData → Prop
  | .flat leaves => t.isSuper = false ∧
      ∀ e ∈ leaves, LeafChecked t.validator t.holdsCounters t.comparator written e
  | .grouped supers => t.isSuper = true ∧ ∀ e ∈ supers,
      (IsName t.comparator e.1 ∨ t.holdsCounters = true ∧ e.1 ∈ counted) ∧
        ∀ e' ∈ e.2, LeafChecked t.validator t.holdsCounters t.subcomparator written e'

namespace RowData

variable {t : Table} {written counted : List Bytes} {row : RowData}

private theorem checked_freshRow (t : Table) (written counted : List Bytes) :
    Checked t written counted t.freshRow := by
  rw [Table.freshRow]
  split
  · next hsuper => exact ⟨hsuper, List.forall_mem_nil _⟩
  · next hsuper => exact ⟨Bool.eq_false_iff.2 hsuper, List.forall_mem_nil _⟩

/-- A checked row is valid if the super columns that were counted in decode and names that compare
equal have the same validator. -/
theorem Checked.valid (h : Checked t written counted row)
    (hcounted : ∀ superColumn ∈ counted, IsName t.comparator superColumn)
    (hvalidators : ∀ a ∈ written, ∀ b ∈ written, t.leafComparator.compare a b = .eq →
      t.validator a = t.validator b) : Valid t row := by
  cases row with
  | flat leaves =>
    obtain ⟨hsuper, hleaves⟩ := h
    rw [Table.leafComparator, hsuper] at hvalidators
    exact ⟨hsuper, fun e he => (hleaves e he).valid hvalidators⟩
  | grouped supers =>
    obtain ⟨hsuper, hsupers⟩ := h
    rw [Table.leafComparator, hsuper] at hvalidators
    refine ⟨hsuper, fun e he => ?_⟩
    obtain ⟨hname, hleaves⟩ := hsupers e he
    refine ⟨?_, fun e' he' => (hleaves e' he').valid hvalidators⟩
    -- a super column's name was checked on a put, or it came in through an increment
    rcases hname with hname | ⟨-, hname⟩
    · exact hname
    · exact hcounted e.1 hname

theorem Checked.onLeaves (h : Checked t written counted row) {change : Leaves → Leaves}
    (hchange :
      ∀ leaves, (∀ e ∈ leaves, LeafChecked t.validator t.holdsCounters t.comparator written e) →
      ∀ e ∈ change leaves, LeafChecked t.validator t.holdsCounters t.comparator written e) :
    Checked t written counted (Table.onLeaves change row) := by
  cases row with
  | flat leaves => exact ⟨h.1, hchange leaves h.2⟩
  | grouped supers => exact h

theorem Checked.onSuper (h : Checked t written counted row) {name : Bytes}
    (hname : IsName t.comparator name ∨ t.holdsCounters = true ∧ name ∈ counted)
    {change : Leaves → Leaves}
    (hchange :
      ∀ leaves, (∀ e ∈ leaves, LeafChecked t.validator t.holdsCounters t.subcomparator written e) →
      ∀ e ∈ change leaves, LeafChecked t.validator t.holdsCounters t.subcomparator written e) :
    Checked t written counted (t.onSuper name change row) := by
  cases row with
  | flat leaves => exact h
  | grouped supers =>
    refine ⟨h.1, Sorted.forall_entry_alter h.2 ⟨hname, hchange [] nofun⟩ ?_⟩
    -- a super column that is there keeps its name
    intro name leaves _ hsuper
    exact ⟨hsuper.1, hchange leaves hsuper.2⟩

theorem Checked.deleteFrom (h : Checked t written counted row) (d : Deletion) :
    Checked t written counted (t.deleteFrom d row) := by
  cases row with
  | flat leaves => exact ⟨h.1, fun e he => h.2 e (List.mem_of_mem_filter he)⟩
  | grouped supers =>
    obtain ⟨left, hleft, hkept⟩ := exists_deleteFrom t d supers
    rw [hleft]
    refine ⟨h.1, fun e he => ?_⟩
    obtain ⟨leaves, hmem, hsub⟩ := hkept e he
    obtain ⟨hname, hleaves⟩ := h.2 (e.1, leaves) hmem
    exact ⟨hname, fun e' he' => hleaves e' (hsub.subset he')⟩

end RowData

/-! ## Tables -/

/-- All rows of a table are checked, given what was written to it. -/
def Table.Checked (moments : List Moment) (t : Table) : Prop :=
  ∀ e ∈ t.rows, RowData.Checked t (columnNames moments t.name) (countedNames moments t.name) e.2

namespace Table

variable {moments : List Moment} {t t' : Table} {w : Write}

theorem Checked.alterRow (h : t.Checked moments) (key : Bytes) {change : RowData → RowData}
    (hchange : ∀ row, RowData.Checked t (columnNames moments t.name)
      (countedNames moments t.name) row →
      RowData.Checked t (columnNames moments t.name) (countedNames moments t.name) (change row)) :
    (t.alterRow key change).Checked moments :=
  Sorted.forall_mem_alter h (hchange _ (RowData.checked_freshRow t _ _)) hchange

/-- A write that is among those of the moments keeps all rows checked. -/
theorem Checked.write (h : t.Checked moments) (hlisted : w ∈ tableWrites moments t.name)
    {key : Bytes} (hw : t.write key w = .ok t') : t'.Checked moments := by
  have hwritten : ∀ put ∈ w.puts, put.2.name ∈ columnNames moments t.name := fun put hput =>
    List.mem_flatMap.2 ⟨w, hlisted, List.mem_map_of_mem hput⟩
  cases w with
  | column c =>
    obtain ⟨hcells, -, hc, -, rfl⟩ := putColumn_eq_ok.1 hw
    apply h.alterRow key
    intro row hrow
    apply hrow.onLeaves
    intro leaves hleaves
    exact forall_checked_put hleaves hcells hc (hwritten (none, c) List.mem_cons_self)
  | superColumn name columns =>
    obtain ⟨hcells, -, hname, hcolumns, -, rfl⟩ := putSuper_eq_ok.1 hw
    apply h.alterRow key
    intro row hrow
    apply hrow.onSuper (.inl hname)
    intro leaves hleaves
    apply forall_checked_foldl_put hcells _ hleaves
    intro c hc
    exact ⟨hcolumns c hc, hwritten (some name, c) (List.mem_map_of_mem hc)⟩
  | increment superColumn c =>
    obtain ⟨hcounters, hsuper, hname, -, rfl⟩ := increment_eq_ok.1 hw
    rw [leafComparator, hsuper] at hname
    apply h.alterRow key
    intro row hrow
    cases superColumn with
    | none =>
      apply hrow.onLeaves
      intro leaves hleaves
      exact forall_checked_increment hleaves hcounters hname
    | some superColumn =>
      -- nothing is known about this name but that it was counted in
      have hcounted : superColumn ∈ countedNames moments t.name :=
        List.mem_filterMap.2 ⟨_, hlisted, rfl⟩
      apply hrow.onSuper (.inr ⟨hcounters, hcounted⟩)
      intro leaves hleaves
      exact forall_checked_increment hleaves hcounters hname
  | delete d =>
    obtain ⟨-, rfl⟩ := delete_eq_ok.1 hw
    cases hrow : t.row? key with
    | none => exact h
    | some row =>
      -- what a deletion leaves was there before
      obtain ⟨k, hmem⟩ := Sorted.mem_of_find? hrow
      exact Sorted.forall_mem_set h ((h _ hmem).deleteFrom d)

private theorem tableInvariant_checked (moments : List Moment) :
    TableInvariant (fun t w => w ∈ tableWrites moments t.name) (Checked moments) where
  emptied _ := nofun
  write h hlisted hw := h.write hlisted hw

end Table

/-! ## Reachable states -/

/-- All rows of every reachable state are checked, given what was written to their table. -/
theorem checked_trace {registry : Registry} {keyspace : KeyspaceDef} {operations : List Operation}
    {name : String} {t : Table}
    (ht : ((ofKeyspace registry keyspace).run operations).table name = .ok t) :
    let moments := (ofKeyspace registry keyspace).trace operations
    ∀ e ∈ t.rows, RowData.Checked t (columnNames moments name) (countedNames moments name) e.2 := by
  intro moments
  have hname : t.name = name := name_of_run ht
  have hchecked : t.Checked moments :=
    (Table.tableInvariant_checked moments).of_trace ht fun w hw => hname ▸ hw
  rw [Table.Checked, hname] at hchecked
  exact hchecked

end WideColumn.Store
