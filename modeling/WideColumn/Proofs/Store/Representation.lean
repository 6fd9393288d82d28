import WideColumn.Proofs.Store.Run

/-!
# What stored rows look like

The rows of a table are sorted lists that are searched by halving, so all reading and writing rests
on them being sorted, on both levels of super tables. The comparators sort only names that decode.
All writes check their names for that, apart from the super column of an increment.

- `Leaves.WellFormed`, `RowData.WellFormed`, `Table.WellFormed`: sorted, with names that decode, and
  with counters in counter tables only;
- `tableInvariant_wellFormed`: every write keeps that, step by step through the two levels;
- `representation`: what it means for reading and writing in every reachable state.
-/

namespace WideColumn.Store

/-! ## Well-formed rows -/

/-- Whether a leaf is a counter. -/
def Leaf.isCounter : Leaf → Bool
  | .counter _ => true
  | .cell .. => false

/-- Leaves are sorted by names that decode, and either all of them are counters or none is. -/
structure Leaves.WellFormed (type : DataType) (counters : Bool) (leaves : Leaves) : Prop where
  increasing : leaves.Increasing type.compare
  names : Sorted.Keys type.Accepts leaves
  kind : ∀ e ∈ leaves, e.2.isCounter = counters

/-- A row has the layout of its table and is sorted on every level. -/
def RowData.WellFormed (t : Table) : RowData → Prop
  | .flat leaves => t.isSuper = false ∧ Leaves.WellFormed t.comparator t.holdsCounters leaves
  | .grouped supers => t.isSuper = true ∧ supers.Increasing t.order ∧
      Sorted.Keys t.comparator.Accepts supers ∧
      ∀ e ∈ supers, Leaves.WellFormed t.subcomparator t.holdsCounters e.2

/-- The rows of a table are sorted by their keys, and each is well formed. -/
structure Table.WellFormed (t : Table) : Prop where
  increasing : t.rows.Increasing compare
  rows : ∀ e ∈ t.rows, RowData.WellFormed t e.2

/-! ## Leaves -/

namespace Leaves

variable {type : DataType} {counters : Bool} {leaves leaves' : Leaves}

theorem wellFormed_nil : WellFormed type counters [] :=
  ⟨List.Pairwise.nil, nofun, nofun⟩

/-- Removing leaves keeps the others in order. -/
theorem WellFormed.sublist (h : WellFormed type counters leaves) (hsub : leaves'.Sublist leaves) :
    WellFormed type counters leaves' where
  increasing := List.Pairwise.sublist hsub h.increasing
  names e he := h.names e (hsub.subset he)
  kind e he := h.kind e (hsub.subset he)

theorem WellFormed.delete (h : WellFormed type counters leaves) (order : Bytes → Bytes → Ordering)
    (predicate : Option SlicePredicate) (deletedAt : Option Int64) :
    WellFormed type counters (leaves.delete order predicate deletedAt) :=
  h.sublist List.filter_sublist

theorem WellFormed.alter (h : WellFormed type counters leaves) {name : Bytes}
    (hname : type.Accepts name) {fresh : Leaf} {change : Leaf → Leaf}
    (hfresh : (change fresh).isCounter = counters)
    (hchange : ∀ leaf, leaf.isCounter = counters → (change leaf).isCounter = counters) :
    WellFormed type counters (leaves.alter type.compare name fresh change) := by
  have hordered := DataType.orderedOn_compare type
  refine ⟨h.increasing.alter h.names hordered hname _ _,
    h.names.alter h.increasing hordered hname _ _,
    ?_⟩
  exact Sorted.forall_mem_alter h.kind hfresh hchange

/-- A written leaf is a cell. -/
theorem WellFormed.put (h : WellFormed type false leaves) {c : Column}
    (hname : type.Accepts c.name) :
    WellFormed type false (leaves.put type.compare c) := by
  apply h.alter hname
  · rw [Leaf.ofColumn, Leaf.overwrite]
    split <;> rfl
  -- A counter could only be met in a counter table.
  · intro leaf hleaf
    cases leaf with
    | counter value => cases hleaf
    | cell value timestamp ttl =>
      rw [Leaf.overwrite]
      split <;> rfl

/-- An incremented leaf is a counter. -/
theorem WellFormed.increment (h : WellFormed type true leaves) {c : Counter}
    (hname : type.Accepts c.name) : WellFormed type true (leaves.increment type.compare c) := by
  apply h.alter hname
  · rfl
  · intro leaf hleaf
    cases leaf with
    | counter value => rfl
    | cell value timestamp ttl => cases hleaf

theorem WellFormed.foldl_put {columns : List Column} (hnames : ∀ c ∈ columns, type.Accepts c.name) :
    ∀ {leaves : Leaves}, WellFormed type false leaves →
      WellFormed type false (columns.foldl (fun leaves c => leaves.put type.compare c) leaves) := by
  -- By induction on the columns: each is put into leaves that are well formed again.
  induction columns with
  | nil => exact fun h => h
  | cons c columns ih =>
    intro leaves h
    exact ih (fun c hc => hnames c (List.mem_cons_of_mem _ hc))
      (h.put (hnames c List.mem_cons_self))

end Leaves

/-- Row keys are in byte order. -/
theorem orderedOn_keys : OrderedOn (fun _ : Bytes => True) compare :=
  .of_transCmp

/-! ## Rows -/

namespace RowData

variable {t : Table} {row : RowData}

theorem wellFormed_freshRow (t : Table) : WellFormed t t.freshRow := by
  rw [Table.freshRow]
  split
  · next hsuper => exact ⟨hsuper, List.Pairwise.nil, nofun, nofun⟩
  · next hsuper => exact ⟨by simpa using hsuper, Leaves.wellFormed_nil⟩

theorem WellFormed.onLeaves (h : WellFormed t row) {change : Leaves → Leaves}
    (hchange : ∀ leaves, Leaves.WellFormed t.comparator t.holdsCounters leaves →
      Leaves.WellFormed t.comparator t.holdsCounters (change leaves)) :
    WellFormed t (Table.onLeaves change row) := by
  cases row with
  | flat leaves => exact ⟨h.1, hchange leaves h.2⟩
  | grouped supers => exact h

theorem WellFormed.onSuper (h : WellFormed t row) {name : Bytes} (hname : t.comparator.Accepts name)
    {change : Leaves → Leaves}
    (hchange : ∀ leaves, Leaves.WellFormed t.subcomparator t.holdsCounters leaves →
      Leaves.WellFormed t.subcomparator t.holdsCounters (change leaves)) :
    WellFormed t (t.onSuper name change row) := by
  cases row with
  | flat leaves => exact h
  | grouped supers =>
    obtain ⟨hsuper, hinc, hkeys, hleaves⟩ := h
    have hordered := DataType.orderedOn_compare t.comparator
    refine ⟨hsuper, hinc.alter hkeys hordered hname _ _, hkeys.alter hinc hordered hname _ _, ?_⟩
    exact Sorted.forall_mem_alter hleaves (hchange [] Leaves.wellFormed_nil) hchange

/-- Changing the leaves of super columns in place keeps their names, so it keeps the order. -/
theorem wellFormed_of_names {supers left : Sorted Bytes Leaves} (h : WellFormed t (.grouped supers))
    (hnames : left.map (·.1) = supers.map (·.1))
    (hleaves : ∀ e ∈ left, Leaves.WellFormed t.subcomparator t.holdsCounters e.2) :
    WellFormed t (.grouped left) := by
  obtain ⟨hsuper, hinc, hkeys, -⟩ := h
  refine ⟨hsuper, ?_, fun e he => ?_, hleaves⟩
  · rw [Sorted.increasing_iff_keys, hnames]
    exact Sorted.increasing_iff_keys.1 hinc
  · have hmem : e.1 ∈ supers.map (·.1) := hnames ▸ List.mem_map_of_mem he
    obtain ⟨e', he', hsame⟩ := List.mem_map.1 hmem
    rw [← hsame]
    exact hkeys e' he'

theorem WellFormed.sublist {supers left : Sorted Bytes Leaves} (h : WellFormed t (.grouped supers))
    (hsub : left.Sublist supers) : WellFormed t (.grouped left) := by
  obtain ⟨hsuper, hinc, hkeys, hleaves⟩ := h
  exact ⟨hsuper, List.Pairwise.sublist hsub hinc, fun e he => hkeys e (hsub.subset he),
    fun e he => hleaves e (hsub.subset he)⟩

theorem WellFormed.deleteFrom (h : WellFormed t row) (d : Deletion) :
    WellFormed t (t.deleteFrom d row) := by
  cases row with
  | flat leaves => exact ⟨h.1, h.2.delete _ _ _⟩
  | grouped supers =>
    have hleaves := h.2.2.2
    cases hsuper : d.superColumn with
    | none =>
      simp only [Table.deleteFrom, hsuper]
      -- Super columns lose leaves first, which keeps their names, and then the empty ones go.
      refine WellFormed.sublist (wellFormed_of_names h ?_ fun e he => ?_) List.filter_sublist
      · rw [List.map_map]
        rfl
      · obtain ⟨⟨name, leaves⟩, hmem, rfl⟩ := List.mem_map.1 he
        have hold := hleaves (name, leaves) hmem
        show Leaves.WellFormed _ _ (if _ then _ else _)
        split
        · exact hold.delete _ _ _
        · exact hold
    | some name =>
      simp only [Table.deleteFrom, hsuper]
      split
      · exact h
      · next i hi =>
        -- The leaves of one super column are fewer, and an empty super column goes as well.
        have hleft := wellFormed_of_names h
          (Sorted.map_key_modify i fun leaves => leaves.delete t.suborder d.predicate d.timestamp)
          fun e he => by
            rcases Sorted.mem_modify he with he | ⟨leaves, hmem, hvalue⟩
            · exact hleaves e he
            · rw [hvalue]
              exact (hleaves (e.1, leaves) hmem).delete _ _ _
        split
        · exact hleft.sublist (List.eraseIdx_sublist ..)
        · exact hleft

end RowData

/-! ## Tables -/

namespace Table

theorem WellFormed.alterRow {t : Table} (h : t.WellFormed) (key : Bytes)
    {change : RowData → RowData}
    (hchange : ∀ row, RowData.WellFormed t row → RowData.WellFormed t (change row)) :
    (t.alterRow key change).WellFormed where
  increasing := h.increasing.alter (fun _ _ => trivial) orderedOn_keys trivial _ _
  rows := Sorted.forall_mem_alter h.rows (hchange _ (RowData.wellFormed_freshRow t)) hchange

/-- An increment names a super column that decodes. All other names are checked by the table. -/
def SuperNameDecodes (t : Table) : Write → Prop
  | .increment (some name) _ => t.comparator.Accepts name
  | _ => True

/-- A write that is accepted keeps a table well formed. -/
theorem WellFormed.write {t t' : Table} (h : t.WellFormed) {key : Bytes} {w : Write}
    (hname : t.SuperNameDecodes w) (hw : t.write key w = .ok t') : t'.WellFormed := by
  -- Each kind of write is one change of one row, behind the checks that the change needs.
  cases w with
  | column c =>
    obtain ⟨hcounters, -, ⟨⟨-, hcolumn⟩, -⟩, -, rfl⟩ := putColumn_eq_ok.1 hw
    refine h.alterRow key fun row hrow => hrow.onLeaves fun leaves hleaves => ?_
    rw [hcounters] at hleaves ⊢
    exact hleaves.put hcolumn
  | superColumn name columns =>
    obtain ⟨hcounters, -, ⟨-, hsuper⟩, hcolumns, -, rfl⟩ := putSuper_eq_ok.1 hw
    refine h.alterRow key fun row hrow => hrow.onSuper hsuper fun leaves hleaves => ?_
    rw [hcounters] at hleaves ⊢
    exact hleaves.foldl_put fun c hc => (hcolumns c hc).1.2
  | increment superColumn c =>
    obtain ⟨hcounters, hsuper, ⟨-, hcounter⟩, -, rfl⟩ := increment_eq_ok.1 hw
    cases superColumn with
    | none =>
      rw [leafComparator, hsuper, Option.isSome_none, if_neg Bool.false_ne_true] at hcounter
      refine h.alterRow key fun row hrow => hrow.onLeaves fun leaves hleaves => ?_
      rw [hcounters] at hleaves ⊢
      exact hleaves.increment hcounter
    | some name =>
      rw [leafComparator, hsuper, Option.isSome_some, if_pos rfl] at hcounter
      refine h.alterRow key fun row hrow => hrow.onSuper hname fun leaves hleaves => ?_
      rw [hcounters] at hleaves ⊢
      exact hleaves.increment hcounter
  | delete d =>
    obtain ⟨-, rfl⟩ := delete_eq_ok.1 hw
    cases hrow : t.row? key with
    | none => exact h
    | some row =>
      obtain ⟨k, hmem, -⟩ :=
        (Sorted.find?_eq_some_iff (fun _ _ => trivial) h.increasing orderedOn_keys
        trivial).1 hrow
      have hdeleted := (h.rows (k, row) hmem).deleteFrom d
      exact ⟨h.increasing.set (fun _ _ => trivial) orderedOn_keys trivial _,
        Sorted.forall_mem_set h.rows hdeleted⟩

theorem tableInvariant_wellFormed : TableInvariant SuperNameDecodes WellFormed where
  emptied _ := ⟨List.Pairwise.nil, nofun⟩
  write h hname hw := h.write hname hw

/-- Tables of cells are well formed whatever is written, for they refuse increments. -/
theorem tableInvariant_cells :
    TableInvariant (fun _ _ => True) fun t => t.holdsCounters = false → t.WellFormed where
  emptied _ _ := ⟨List.Pairwise.nil, nofun⟩
  write {t t' key w} h _ hw hcells := by
    have hsame : t'.emptied.holdsCounters = t.emptied.holdsCounters :=
      congrArg holdsCounters (emptied_of_write hw)
    have hcells' : t.holdsCounters = false := hsame.symm.trans hcells
    refine (h hcells').write ?_ hw
    cases w with
    | increment superColumn c => cases hcells'.symm.trans (increment_eq_ok.1 hw).1
    | _ => trivial

end Table

/-! ## Reachable states -/

/-- Tables of cells are well formed in every reachable state. -/
theorem wellFormed_of_cells {registry : Registry} {keyspace : KeyspaceDef}
    {history : List Operation} {name : String} {t : Table}
    (ht : ((ofKeyspace registry keyspace).run history).table name = .ok t)
    (hcells : t.holdsCounters = false) : t.WellFormed := by
  have hkept := @TableInvariant.run _ _ Table.tableInvariant_cells registry keyspace history
    fun _ _ _ _ _ _ _ _ => trivial
  exact hkept.holds (name, t) ((table_eq_ok_iff hkept.increasing).1 ht) hcells

/-- Names stand in the order of their comparator, no two of them compare equal, and the search finds
a name that decodes exactly if an entry compares equal to it. -/
structure InOrder {α : Type} (type : DataType) (entries : Sorted Bytes α) : Prop where
  increasing : entries.Increasing type.compare
  distinct : ∀ (i j : Nat) (a b : Bytes × α), entries[i]? = some a → entries[j]? = some b →
    type.compare a.1 b.1 = .eq → i = j
  found : ∀ name, type.Accepts name →
    ((entries.index? type.compare name).isSome = true ↔ ∃ e ∈ entries, type.compare e.1 name = .eq)

/-- The leaves of one row or super column are of the kind of their table. Reading a super column
gives all of them, and an increment that the table accepts meets nothing but counters. -/
structure OfKind (t : Table) (leaves : Leaves) : Prop where
  kind : ∀ e ∈ leaves, e.2.isCounter = t.holdsCounters
  complete : (if t.holdsCounters then leaves.counters.map Entry.counter
    else leaves.columns.map Entry.column) = leaves.toEntries
  increment : ∀ key superColumn c t', t.increment key superColumn c = .ok t' →
    ∀ e ∈ leaves, ∃ value, e.2 = .counter value

private theorem inOrder_of_increasing {α : Type} {type : DataType} {entries : Sorted Bytes α}
    (hinc : entries.Increasing type.compare) (hkeys : Sorted.Keys type.Accepts entries) :
    InOrder type entries where
  increasing := hinc
  distinct i j a b ha hb heq := by
    have hordered := DataType.orderedOn_compare type
    -- Of two different entries one is strictly before the other.
    rcases Nat.lt_trichotomy i j with hlt | hsame | hgt
    · rw [hinc.lt_of_lt ha hb hlt] at heq
      cases heq
    · exact hsame
    · have hba := hinc.lt_of_lt hb ha hgt
      rw [hordered.gt_of_lt (hkeys b (List.mem_of_getElem? hb))
        (hkeys a (List.mem_of_getElem? ha)) hba]
        at heq
      cases heq
  found name hname := Sorted.isSome_index?_iff hkeys hinc (DataType.orderedOn_compare type) hname

theorem map_counters {leaves : Leaves} (h : ∀ e ∈ leaves, e.2.isCounter = true) :
    leaves.counters.map Entry.counter = leaves.toEntries := by
  -- Every leaf is a counter, so none is dropped.
  induction leaves with
  | nil => rfl
  | cons e leaves ih =>
    obtain ⟨name, leaf⟩ := e
    have hrest := ih fun e he => h e (List.mem_cons_of_mem _ he)
    cases leaf with
    | counter value =>
      show Entry.counter ⟨name, value⟩ :: (Leaves.counters leaves).map Entry.counter = _
      rw [hrest]
      rfl
    | cell value timestamp ttl => cases h _ List.mem_cons_self

theorem map_columns {leaves : Leaves} (h : ∀ e ∈ leaves, e.2.isCounter = false) :
    leaves.columns.map Entry.column = leaves.toEntries := by
  -- Every leaf is a cell, so none is dropped.
  induction leaves with
  | nil => rfl
  | cons e leaves ih =>
    obtain ⟨name, leaf⟩ := e
    have hrest := ih fun e he => h e (List.mem_cons_of_mem _ he)
    cases leaf with
    | counter value => cases h _ List.mem_cons_self
    | cell value timestamp ttl =>
      show Entry.column ⟨name, value, timestamp, ttl⟩ :: (Leaves.columns leaves).map Entry.column =
        _
      rw [hrest]
      rfl

theorem ofKind_of_wellFormed {t : Table} {type : DataType} {leaves : Leaves}
    (h : Leaves.WellFormed type t.holdsCounters leaves) : OfKind t leaves where
  kind := h.kind
  complete := by
    cases hcounters : t.holdsCounters with
    | true => exact map_counters (hcounters ▸ h.kind)
    | false => exact map_columns (hcounters ▸ h.kind)
  increment key superColumn c t' ht' e he := by
    have hkind := h.kind e he
    -- The increment was accepted, so the table holds counters.
    rw [(Table.increment_eq_ok.1 ht').1] at hkind
    cases hleaf : e.2 with
    | counter value => exact ⟨value, rfl⟩
    | cell value timestamp ttl =>
      rw [hleaf] at hkind
      cases hkind

/-- In every state that a store reaches by operations whose increments name super columns that
decode, the tables are those of the keyspace, rows have the layout of their table, names are in
order on every level, and counter tables hold only counters and the others only cells. -/
theorem representation (registry : Registry) (keyspace : KeyspaceDef) {operations : List Operation}
    (hnames : ∀ operation ∈ operations,
      operation.Allowed Table.SuperNameDecodes (ofKeyspace registry keyspace))
    {name : String} {t : Table}
    (ht : (name, t) ∈ ((ofKeyspace registry keyspace).run operations).tables) :
    (ofKeyspace registry keyspace).table name = .ok t.emptied ∧ t.rows.Increasing compare ∧
      ∀ key row, (key, row) ∈ t.rows →
        match row with
        | .flat leaves => t.isSuper = false ∧ InOrder t.comparator leaves ∧ OfKind t leaves
        | .grouped supers => t.isSuper = true ∧ InOrder t.comparator supers ∧
            ∀ e ∈ supers, InOrder t.subcomparator e.2 ∧ OfKind t e.2 := by
  -- the invariant holds after every run; what remains is to read it in the terms of the statement
  have hkept := Table.tableInvariant_wellFormed.run registry keyspace hnames
  have htable : t.WellFormed := hkept.holds (name, t) ht
  refine ⟨(table_eq_ok_iff hkept.origin).2 (hkept.same (name, t) ht), htable.increasing,
    fun key row hrow => ?_⟩
  have hwell := htable.rows (key, row) hrow
  cases row with
  | flat leaves =>
    obtain ⟨hsuper, hleaves⟩ := hwell
    exact ⟨hsuper, inOrder_of_increasing hleaves.increasing hleaves.names,
      ofKind_of_wellFormed hleaves⟩
  | grouped supers =>
    obtain ⟨hsuper, hinc, hkeys, hleaves⟩ := hwell
    refine ⟨hsuper, inOrder_of_increasing hinc hkeys, fun e he => ?_⟩
    exact ⟨inOrder_of_increasing (hleaves e he).increasing (hleaves e he).names,
      ofKind_of_wellFormed (hleaves e he)⟩

/-- A table that counts by number and text. -/
def hits : KeyspaceDef :=
  (KeyspaceDef.ofName "web").withTable
    { TableDef.ofName "web" "hits" with
      layout := .super, comparator := "LongType", subcomparator := some "UTF8Type",
      validation := "CounterColumnType" }

/-- Increments whose super columns come in descending order, a refused one and a removal. -/
def hitsRun : List Operation :=
  [.add [107] ⟨"hits", some [0, 0, 0, 0, 0, 0, 0, 5]⟩ ⟨[97], 2⟩,
    .add [107] ⟨"hits", some [255, 255, 255, 255, 255, 255, 255, 255]⟩ ⟨[98], 1⟩,
    .add [107] ⟨"hits", none⟩ ⟨[97], 1⟩,
    .remove [107] ⟨"hits", some [0, 0, 0, 0, 0, 0, 0, 6], none⟩ none]

theorem representation_hits :
    ∃ t supers, ("hits", t) ∈ ((ofKeyspace .standard hits).run hitsRun).tables ∧
      supers = [([255, 255, 255, 255, 255, 255, 255, 255], [([98], Leaf.counter 1)]),
        ([0, 0, 0, 0, 0, 0, 0, 5], [([97], Leaf.counter 2)])] ∧
      ([107], .grouped supers) ∈ t.rows ∧ InOrder t.comparator supers ∧
      ∀ e ∈ supers, InOrder t.subcomparator e.2 ∧ OfKind t e.2 := by
  -- the table's comparator, read off the store
  have hcomparator : (fun t : Table => t.comparator) <$> (ofKeyspace .standard hits).table "hits" =
      .ok .long := by
    decide +kernel
  have hlong : ∀ t, (ofKeyspace .standard hits).table "hits" = .ok t → t.comparator = .long := by
    intro t ht
    rw [ht] at hcomparator
    exact Except.ok.inj hcomparator
  -- the two increments name super columns that are packed numbers
  have hnames : ∀ operation ∈ hitsRun,
      operation.Allowed Table.SuperNameDecodes (ofKeyspace .standard hits) := by
    intro operation hoperation key name w hw t ht
    simp only [hitsRun, List.mem_cons, List.not_mem_nil, or_false] at hoperation
    rcases hoperation with rfl | rfl | rfl | rfl <;> cases List.mem_singleton.1 hw
    · show t.comparator.Accepts _
      rw [hlong t ht]
      exact ⟨.long 5, by decide +kernel⟩
    · show t.comparator.Accepts _
      rw [hlong t ht]
      exact ⟨.long (-1), by decide +kernel⟩
    · trivial
    · trivial
  -- the row after the run, computed once
  have htables : ((ofKeyspace .standard hits).run hitsRun).tables.map (fun e => (e.1, e.2.rows)) =
      [("hits",
        [([107], .grouped [([255, 255, 255, 255, 255, 255, 255, 255], [([98], Leaf.counter 1)]),
        ([0, 0, 0, 0, 0, 0, 0, 5], [([97], Leaf.counter 2)])])])] := by
    decide +kernel
  have hmem := htables ▸ List.mem_singleton_self _
  obtain ⟨⟨name, t⟩, ht, hrows⟩ := List.mem_map.1 hmem
  obtain ⟨rfl, hrows⟩ := Prod.mk.inj hrows
  have hrow := hrows ▸ List.mem_singleton_self _
  obtain ⟨-, -, hsound⟩ := representation .standard hits hnames ht
  obtain ⟨-, horder, hleaves⟩ := hsound _ _ hrow
  exact ⟨t, _, ht, rfl, hrow, horder, hleaves⟩

end WideColumn.Store
