import WideColumn.Proofs.DataType.Alike
import WideColumn.Proofs.Sorted.Lookup
import WideColumn.Proofs.Store.Leaves
import WideColumn.Proofs.Store.Validity

/-!
# Names that read alike

A row keeps names apart by their bytes, and its readers see what these bytes stand for. Entries
whose names read as one value are still there side by side, if their names differ in bytes that
reading does not look at. There are none among names that were packed.

- `Differ`, `differ_of_increasing`: how names that read as one value differ;
- `Unique`, `Differ.unique`: plain names read as different values;
- `names_of_trace`: what all written names have, all stored names have;
- `leavesDiffer_of_run`, `supersDiffer_of_trace`, `unique_of_trace`: the names of rows in reachable
  states.
-/

namespace WideColumn.Store

/-! ## Entries -/

section Entries

variable {α : Type} {type : DataType} {entries : Sorted Bytes α}

/-- Names that read as one value have different bytes, which differ only where reading does not
look, and are not both plain. -/
def Differ (type : DataType) (entries : Sorted Bytes α) : Prop :=
  entries.Pairwise fun a b => ∀ v, type.unpack a.1 = .ok v → type.unpack b.1 = .ok v →
    a.1 ≠ b.1 ∧ type.Alike a.1 b.1 ∧ ¬(type.Plain a.1 ∧ type.Plain b.1)

/-- No two names read as one value. -/
def Unique (type : DataType) (entries : Sorted Bytes α) : Prop :=
  entries.Pairwise fun a b => ∀ v, type.unpack a.1 = .ok v → type.unpack b.1 ≠ .ok v

/-- Names in order have different bytes. -/
theorem differ_of_increasing (hinc : entries.Increasing type.compare)
    (hkeys : Sorted.Keys type.Accepts entries) : Differ type entries := by
  have hdifferent : entries.Pairwise fun a b => a.1 ≠ b.1 :=
    List.pairwise_map.1 (hinc.nodup_keys hkeys (DataType.orderedOn_compare type))
  refine hdifferent.imp fun hne v ha hb => ⟨hne, DataType.alike_of_unpack type ha hb, ?_⟩
  rintro ⟨hplain, hplain'⟩
  exact hne (DataType.eq_of_plain hplain hplain' ha hb)

/-- Plain names read as different values. -/
theorem Differ.unique (h : Differ type entries) (hplain : Sorted.Keys type.Plain entries) :
    Unique type entries :=
  List.Pairwise.imp_of_mem (fun ha hb hdiffer v hread hread' =>
    (hdiffer v hread hread').2.2 ⟨hplain _ ha, hplain _ hb⟩) h

/-- What a predicate selects has no two names that read as one value, also backwards. -/
theorem Unique.select (h : Unique type entries) (order : Bytes → Bytes → Ordering)
    (predicate : SlicePredicate) : Unique type (select order predicate entries) := by
  rcases sublist_select order predicate entries with hsub | hsub
  · exact List.Pairwise.sublist hsub h
  · refine List.Pairwise.sublist hsub (List.pairwise_reverse.2 (h.imp fun hne v hb ha => ?_))
    exact hne v ha hb

/-- What is made of some entries, with their names, has no two names that read as one value. -/
theorem Unique.filterMap {β : Type} {f : Bytes × α → Option β} {name : β → Bytes}
    (hname : ∀ e b, f e = some b → name b = e.1) (h : Unique type entries) :
    (entries.filterMap f).Pairwise fun a b =>
      ∀ v, type.unpack (name a) = .ok v → type.unpack (name b) ≠ .ok v := by
  refine List.pairwise_filterMap.2 (List.Pairwise.imp (fun {e e'} hne b hb b' hb' => ?_) h)
  rw [hname e b hb, hname e' b' hb']
  exact hne

end Entries

/-! ## Rows -/

/-- The leaves of a row, at its top or in each of its super columns, differ in their names. -/
def RowData.LeavesDiffer (t : Table) : RowData → Prop
  | .flat leaves => Differ t.leafComparator leaves
  | .grouped supers => ∀ e ∈ supers, Differ t.leafComparator e.2

/-- The super columns of a row differ in their names. -/
def RowData.SupersDiffer (t : Table) : RowData → Prop
  | .flat _ => True
  | .grouped supers => Differ t.comparator supers

/-- No two columns of a row, no two super columns and no two sub-columns of a super column have
names that read as one value. -/
def RowData.Unique (t : Table) : RowData → Prop
  | .flat leaves => Store.Unique t.leafComparator leaves
  | .grouped supers => Store.Unique t.comparator supers ∧
      ∀ e ∈ supers, Store.Unique t.leafComparator e.2

private theorem RowData.LeavesWellFormed.leavesDiffer {t : Table} {row : RowData}
    (h : row.LeavesWellFormed t) : row.LeavesDiffer t := by
  have hleaves : ∀ {type : DataType} {leaves : Leaves},
      Leaves.WellFormed type t.holdsCounters leaves → Differ type leaves :=
    fun h => differ_of_increasing h.increasing h.names
  cases row with
  | flat leaves =>
    rw [LeavesDiffer, Table.leafComparator, h.1]
    exact hleaves h.2
  | grouped supers =>
    rw [LeavesDiffer, Table.leafComparator, h.1]
    exact fun e he => hleaves (h.2 e he)

private theorem RowData.WellFormed.supersDiffer {t : Table} {row : RowData} (h : WellFormed t row) :
    row.SupersDiffer t := by
  cases row with
  | flat leaves => trivial
  | grouped supers => exact differ_of_increasing h.2.1 h.2.2.1

/-! ## Names that were written -/

/-- The leaves of a row and its super columns have names of which something holds. -/
def RowData.Names (leaf super : Bytes → Prop) : RowData → Prop
  | .flat leaves => Sorted.Keys leaf leaves
  | .grouped supers => ∀ e ∈ supers, super e.1 ∧ Sorted.Keys leaf e.2

/-- The names of leaves and super columns that a write brings are names of which something holds. -/
def Write.Names (leaf super : Bytes → Prop) : Write → Prop
  | .column c => leaf c.name
  | .superColumn name columns => super name ∧ ∀ c ∈ columns, leaf c.name
  | .increment given c => (∀ name ∈ given, super name) ∧ leaf c.name
  | .delete _ => True

section Names

variable {leaf super : Bytes → Prop} {t t' : Table} {row : RowData}

/-- The name that is written is the only one that may be new. -/
theorem keys_alter {α : Type} {p : Bytes → Prop} {order : Bytes → Bytes → Ordering}
    {entries : Sorted Bytes α} (h : Sorted.Keys p entries) {name : Bytes} (hname : p name)
    (fresh : α) (change : α → α) : Sorted.Keys p (entries.alter order name fresh change) :=
  Sorted.forall_entry_alter h hname fun _ _ _ hold => hold

private theorem keys_foldl_put {order : Bytes → Bytes → Ordering} {columns : List Column}
    (hcolumns : ∀ c ∈ columns, leaf c.name) :
    ∀ {leaves : Leaves}, Sorted.Keys leaf leaves →
      Sorted.Keys leaf (columns.foldl (fun leaves c => Leaves.put order c leaves) leaves) := by
  -- By induction on the columns: each brings no name but its own.
  induction columns with
  | nil => exact fun h => h
  | cons c columns ih =>
    intro leaves h
    apply ih fun c hc => hcolumns c (List.mem_cons_of_mem _ hc)
    exact keys_alter h (hcolumns c List.mem_cons_self) _ _

namespace RowData.Names

theorem fresh (t : Table) : t.freshRow.Names leaf super := by
  rw [Table.freshRow]
  split <;> exact List.forall_mem_nil _

theorem onLeaves (h : row.Names leaf super) {change : Leaves → Leaves}
    (hchange : ∀ leaves, Sorted.Keys leaf leaves → Sorted.Keys leaf (change leaves)) :
    (Table.onLeaves change row).Names leaf super := by
  cases row with
  | flat leaves => exact hchange leaves h
  | grouped supers => exact h

theorem onSuper (h : row.Names leaf super) {name : Bytes} (hname : super name)
    {change : Leaves → Leaves}
    (hchange : ∀ leaves, Sorted.Keys leaf leaves → Sorted.Keys leaf (change leaves)) :
    (t.onSuper name change row).Names leaf super := by
  cases row with
  | flat leaves => exact h
  | grouped supers =>
    exact Sorted.forall_entry_alter h ⟨hname, hchange [] nofun⟩
      fun _ leaves _ hold => ⟨hold.1, hchange leaves hold.2⟩

theorem deleteFrom (h : row.Names leaf super) (d : Deletion) :
    (t.deleteFrom d row).Names leaf super := by
  cases row with
  | flat leaves => exact fun e he => h e (List.mem_of_mem_filter he)
  | grouped supers =>
    obtain ⟨left, hleft, hsub⟩ := exists_deleteFrom t d supers
    rw [hleft]
    intro e he
    obtain ⟨leaves, hleaves, hsub⟩ := hsub e he
    obtain ⟨hname, hkeys⟩ := h _ hleaves
    exact ⟨hname, fun e' he' => hkeys e' (hsub.subset he')⟩

end RowData.Names

/-- A write brings no names but its own. -/
theorem Table.names_of_write {key : Bytes} {w : Write} (h : ∀ e ∈ t.rows, e.2.Names leaf super)
    (hnames : w.Names leaf super) (hw : t.write key w = .ok t') :
    ∀ e ∈ t'.rows, e.2.Names leaf super := by
  -- a change that keeps the names of a row keeps those of the table, also in a new row
  have halter : ∀ {change : RowData → RowData},
      (∀ row, row.Names leaf super → (change row).Names leaf super) →
      ∀ e ∈ (t.alterRow key change).rows, e.2.Names leaf super :=
    fun hchange => Sorted.forall_mem_alter h (hchange _ (.fresh t)) hchange
  cases w with
  | column c =>
    obtain ⟨-, -, -, -, rfl⟩ := putColumn_eq_ok.1 hw
    exact halter fun row hrow => hrow.onLeaves fun leaves hleaves => keys_alter hleaves hnames _ _
  | superColumn name columns =>
    obtain ⟨-, -, -, -, -, rfl⟩ := putSuper_eq_ok.1 hw
    exact halter fun row hrow => hrow.onSuper hnames.1 fun leaves => keys_foldl_put hnames.2
  | increment given c =>
    obtain ⟨-, -, -, -, rfl⟩ := increment_eq_ok.1 hw
    cases given with
    | none =>
      exact halter fun row hrow =>
        hrow.onLeaves fun leaves hleaves => keys_alter hleaves hnames.2 _ _
    | some name =>
      exact halter fun row hrow =>
        hrow.onSuper (hnames.1 name rfl) fun leaves hleaves => keys_alter hleaves hnames.2 _ _
  | delete d =>
    obtain ⟨-, rfl⟩ := delete_eq_ok.1 hw
    cases hrow : t.row? key with
    | none => exact h
    | some row =>
      obtain ⟨k, hmem⟩ := Sorted.mem_of_find? hrow
      exact Sorted.forall_mem_set h ((h _ hmem).deleteFrom d)

private theorem tableInvariant_names (leaf super : Bytes → Prop) :
    TableInvariant (fun _ w => w.Names leaf super) fun t => ∀ e ∈ t.rows, e.2.Names leaf super where
  emptied _ := nofun
  write h hnames hw := Table.names_of_write h hnames hw

end Names

/-! ## Reachable states -/

/-- All names of a write are plain, and its super column decodes. -/
def Write.Plain (t : Table) (w : Write) : Prop :=
  w.Names t.leafComparator.Plain fun name => t.comparator.Plain name ∧ t.comparator.Accepts name

section Reachable

variable {registry : Registry} {keyspace : KeyspaceDef} {operations : List Operation}
  {name : String} {t : Table}

/-- What all names that were written to a table have, all names have that it holds. -/
theorem names_of_trace {leaf super : Bytes → Prop}
    (ht : ((ofKeyspace registry keyspace).run operations).table name = .ok t)
    (hwrites : ∀ w ∈ tableWrites ((ofKeyspace registry keyspace).trace operations) name,
      w.Names leaf super) : ∀ e ∈ t.rows, e.2.Names leaf super :=
  (tableInvariant_names leaf super).of_trace ht hwrites

/-- Leaves differ in their names whatever is written. -/
theorem leavesDiffer_of_run
    (ht : ((ofKeyspace registry keyspace).run operations).table name = .ok t) :
    ∀ e ∈ t.rows, e.2.LeavesDiffer t :=
  fun e he => (leavesWellFormed_of_run ht e he).leavesDiffer

/-- A table is well formed if the super columns that were counted in decode. -/
theorem wellFormed_of_trace
    (ht : ((ofKeyspace registry keyspace).run operations).table name = .ok t)
    (hcounted : ∀ superColumn ∈ countedNames ((ofKeyspace registry keyspace).trace operations) name,
      t.comparator.Accepts superColumn) : t.WellFormed := by
  refine Table.tableInvariant_wellFormed.of_trace ht fun w hw => ?_
  cases w with
  | increment given c =>
    cases given with
    | none => trivial
    | some superColumn => exact hcounted superColumn (List.mem_filterMap.2 ⟨_, hw, rfl⟩)
  | _ => trivial

/-- Tables without counters have no super columns that were counted in, so they are well formed
anyway. -/
theorem wellFormed_of_countedNames
    (ht : ((ofKeyspace registry keyspace).run operations).table name = .ok t)
    (hcounted : t.holdsCounters = true →
      ∀ superColumn ∈ countedNames ((ofKeyspace registry keyspace).trace operations) name,
        t.comparator.Accepts superColumn) : t.WellFormed := by
  cases hcounters : t.holdsCounters with
  | true => exact wellFormed_of_trace ht (hcounted hcounters)
  | false => exact wellFormed_of_cells ht hcounters

/-- Super columns differ in their names if those that were counted in decode. -/
theorem supersDiffer_of_trace
    (ht : ((ofKeyspace registry keyspace).run operations).table name = .ok t)
    (hcounted : t.holdsCounters = true →
      ∀ superColumn ∈ countedNames ((ofKeyspace registry keyspace).trace operations) name,
        t.comparator.Accepts superColumn) : ∀ e ∈ t.rows, e.2.SupersDiffer t :=
  fun e he => ((wellFormed_of_countedNames ht hcounted).rows e he).supersDiffer

/-- If plain names were written only, no two names read as one value. -/
theorem unique_of_trace
    (ht : ((ofKeyspace registry keyspace).run operations).table name = .ok t)
    (hplain : ∀ w ∈ tableWrites ((ofKeyspace registry keyspace).trace operations) name, w.Plain t) :
    ∀ e ∈ t.rows, e.2.Unique t := by
  -- the names of super columns that came in through increments are ones the comparator accepts
  have hcounted :
      ∀ superColumn ∈ countedNames ((ofKeyspace registry keyspace).trace operations) name,
      t.comparator.Accepts superColumn := by
    intro superColumn hmem
    obtain ⟨w, hw, hgiven⟩ := List.mem_filterMap.1 hmem
    cases w with
    | increment given c => exact ((hplain _ hw).1 superColumn hgiven).2
    | _ => cases hgiven
  -- names of one row differ as the comparator sees them, and plain names are equal when it says so
  intro e he
  have hleaves := leavesDiffer_of_run ht e he
  have hsupers := supersDiffer_of_trace ht (fun _ => hcounted) e he
  have hnames := names_of_trace ht hplain e he
  obtain ⟨key, row⟩ := e
  cases row with
  | flat leaves => exact hleaves.unique hnames
  | grouped supers =>
    refine ⟨hsupers.unique fun e he => (hnames e he).1.1, fun e he => ?_⟩
    exact (hleaves e he).unique (hnames e he).2

end Reachable

end WideColumn.Store
