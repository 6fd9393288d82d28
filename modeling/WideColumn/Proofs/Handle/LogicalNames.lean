import WideColumn.Handle.Write
import WideColumn.Proofs.Handle.Mutations
import WideColumn.Proofs.Handle.Validity
import WideColumn.Proofs.Store.Names

/-!
# Cells found by their logical names

A row that was read finds the first cell of a logical name. It finds every cell of it so, unless two
names of the stored row read as one value, and such names are not packed by any handle.

- `Row.Unambiguous`: every cell is found by its name, also inside super columns;
- `unambiguous_of_unique`: so it is in a row of names that read as different values;
- `Handle.WritesPlain`: the names that a handle with the types of a table packs for it;
- `logical_names_differ`: the names of rows in reachable states;
- `logical_names_repeat`: columns that are not found by the names they are read with.
-/

namespace WideColumn

/-! ## Cells of a row -/

/-- Every cell of a row is the one that is found by its name, and so is every cell of a super
column. -/
def Row.Unambiguous (r : Row) : Prop :=
  ∀ cell ∈ r.cells, r.get? cell.name = some cell ∧
    ∀ inner ∈ cell.cells, cell.get? inner.name = some inner

/-- Where no name occurs twice, each finds its cell. -/
theorem find?_name {cells : List Cell} (hnodup : (cells.map Cell.name).Nodup) {cell : Cell}
    (hcell : cell ∈ cells) : (cells.find? fun c => c.name == cell.name) = some cell := by
  induction cells with
  | nil => cases hcell
  | cons first cells ih =>
    rw [List.map_cons, List.nodup_cons] at hnodup
    rcases List.mem_cons.1 hcell with rfl | hcell
    · exact List.find?_cons_of_pos (beq_self_eq_true _)
    · have hne : first.name ≠ cell.name := fun hsame =>
        hnodup.1 (hsame ▸ List.mem_map_of_mem hcell)
      rw [List.find?_cons_of_neg (by simpa using hne)]
      exact ih hnodup.2 hcell

/-- Names that read as different values are read as the names of different cells. -/
theorem nodup_names {α : Type} {decode : α → Except ClientError Cell} {name : α → Bytes}
    {type : DataType} (hname : ∀ a cell, decode a = .ok cell → type.unpack (name a) = .ok cell.name)
    {entries : List α}
    (hunique : entries.Pairwise fun a b => ∀ v, type.unpack (name a) = .ok v →
      type.unpack (name b) ≠ .ok v)
    {cells : List Cell} (hcells : entries.mapM decode = .ok cells) :
    (cells.map Cell.name).Nodup := by
  induction entries generalizing cells with
  | nil =>
    cases hcells
    exact List.nodup_nil
  | cons a entries ih =>
    simp only [List.mapM_cons, bind_eq_ok, pure_eq_ok] at hcells
    obtain ⟨first, hfirst, rest, hrest, rfl⟩ := hcells
    obtain ⟨hnew, hunique⟩ := List.pairwise_cons.1 hunique
    rw [List.map_cons, List.nodup_cons]
    refine ⟨fun hmem => ?_, ih hunique hrest⟩
    -- A later cell of the same name is read from an entry of its own.
    obtain ⟨cell, hcell, hsame⟩ := List.mem_map.1 hmem
    obtain ⟨b, hb, hdecode⟩ := (mem_of_mapM hrest).1 hcell
    exact hnew b hb first.name (hname a first hfirst) (hsame ▸ hname b cell hdecode)

section Decoding

variable {h : Handle} {t : Store.Table} {leaves : Store.Leaves} {cell : Cell} {cells : List Cell}

private theorem Handle.name_of_decodeColumn {c : Column} (hc : h.decodeColumn c = .ok cell) :
    h.schema.columnType.unpack c.name = .ok cell.name ∧ cell.cells = [] := by
  simp only [decodeColumn, bind_eq_ok, liftMarshal_eq_ok, pure_eq_ok] at hc
  obtain ⟨name, hname, value, -, rfl⟩ := hc
  exact ⟨hname, rfl⟩

private theorem Handle.name_of_decodeCounter {c : Counter} (hc : h.decodeCounter c = .ok cell) :
    h.schema.columnType.unpack c.name = .ok cell.name ∧ cell.cells = [] := by
  simp only [decodeCounter, bind_eq_ok, liftMarshal_eq_ok, pure_eq_ok] at hc
  obtain ⟨name, hname, rfl⟩ := hc
  exact ⟨hname, rfl⟩

private theorem Handle.name_of_leaf {name : Bytes} {leaf : Store.Leaf}
    (hcell : h.decodeEntry (leaf.toEntry name) = .ok cell) :
    h.schema.columnType.unpack name = .ok cell.name ∧ cell.cells = [] := by
  cases leaf with
  | cell value timestamp ttl => exact name_of_decodeColumn hcell
  | counter value => exact name_of_decodeCounter hcell

/-- A super column is read with its name, and with the names of its leaves. -/
theorem Handle.name_of_superEntry {name : Bytes}
    (hcell : h.decodeEntry (t.superEntry name leaves) = .ok cell) :
    (h.schema.sliceType false).unpack name = .ok cell.name ∧
      (Store.Unique h.schema.columnType leaves → (cell.cells.map Cell.name).Nodup) := by
  -- A super column is listed with its counters or with its columns; each keeps its own name.
  rw [Store.Table.superEntry] at hcell
  split at hcell
  · simp only [decodeEntry, bind_eq_ok, liftMarshal_eq_ok, pure_eq_ok] at hcell
    obtain ⟨v, hv, cells, hcells, rfl⟩ := hcell
    refine ⟨hv, fun hunique => ?_⟩
    refine nodup_names (fun c cell hc => (name_of_decodeCounter hc).1) (hunique.filterMap ?_) hcells
    rintro ⟨name, leaf⟩ c hc
    cases leaf <;> cases hc
    rfl
  · simp only [decodeEntry, bind_eq_ok, liftMarshal_eq_ok, pure_eq_ok] at hcell
    obtain ⟨v, hv, cells, hcells, rfl⟩ := hcell
    refine ⟨hv, fun hunique => ?_⟩
    refine nodup_names (fun c cell hc => (name_of_decodeColumn hc).1) (hunique.filterMap ?_) hcells
    rintro ⟨name, leaf⟩ c hc
    cases leaf <;> cases hc
    rfl

/-- Leaves with names that read as different values are read as an unambiguous row. -/
theorem Handle.unambiguous_leaves (hunique : Store.Unique h.schema.columnType leaves)
    (hcells : h.decode leaves.toEntries = .ok cells) (key : Value) :
    Row.Unambiguous ⟨key, cells⟩ := by
  rw [decode, Store.Leaves.toEntries, List.mapM_map] at hcells
  have hnodup := nodup_names (fun (e : Bytes × Store.Leaf) cell hcell => (name_of_leaf hcell).1)
    hunique hcells
  intro cell hcell
  refine ⟨find?_name hnodup hcell, ?_⟩
  obtain ⟨e, -, he⟩ := (mem_of_mapM hcells).1 hcell
  rw [(name_of_leaf he).2]
  exact nofun

/-- So are super columns, with what is inside them. -/
theorem Handle.unambiguous_supers {supers : Sorted Bytes Store.Leaves}
    (hunique : Store.Unique (h.schema.sliceType false) supers)
    (hleaves : ∀ e ∈ supers, Store.Unique h.schema.columnType e.2)
    (hcells : h.decode (supers.map fun (name, leaves) => t.superEntry name leaves) = .ok cells)
    (key : Value) : Row.Unambiguous ⟨key, cells⟩ := by
  rw [decode, List.mapM_map] at hcells
  have hnodup := nodup_names
    (fun (e : Bytes × Store.Leaves) cell hcell => (name_of_superEntry hcell).1) hunique hcells
  intro cell hcell
  refine ⟨find?_name hnodup hcell, fun inner hinner => ?_⟩
  obtain ⟨e, he, hdecode⟩ := (mem_of_mapM hcells).1 hcell
  exact find?_name ((name_of_superEntry hdecode).2 (hleaves e he)) hinner

/-- Whatever is read of a row whose names read as different values is unambiguous. -/
theorem Handle.Agrees.unambiguous (hagrees : h.Agrees t) {row : Store.RowData}
    (hlayout : row.LeavesWellFormed t) (hunique : row.Unique t) {superColumn : Option Bytes}
    {predicate : SlicePredicate} (hcells : h.decode (t.slice row superColumn predicate) = .ok cells)
    (key : Value) : Row.Unambiguous ⟨key, cells⟩ := by
  -- Columns are read in the same way from a flat row and from one super column.
  have hleaves : ∀ {leaves : Store.Leaves} {order : Bytes → Bytes → Ordering},
      Store.Unique t.leafComparator leaves →
      h.decode (Store.Leaves.toEntries (Store.select order predicate leaves)) = .ok cells →
      Row.Unambiguous ⟨key, cells⟩ := by
    intro leaves order hunique hcells
    rw [← hagrees.columnType] at hunique
    exact Handle.unambiguous_leaves (hunique.select order predicate) hcells key
  cases row with
  | flat leaves => exact hleaves hunique hcells
  | grouped supers =>
    cases superColumn with
    | none =>
      obtain ⟨hsupers, hinner⟩ := hunique
      rw [← hagrees.sliceType_eq hlayout.1] at hsupers
      rw [← hagrees.columnType] at hinner
      refine Handle.unambiguous_supers (hsupers.select t.order predicate)
        (fun e he => ?_) hcells key
      exact hinner e (mem_of_mem_select he)
    | some superColumn =>
      simp only [Store.Table.slice] at hcells
      split at hcells
      · next inner hfind =>
        obtain ⟨name, hmem⟩ := Sorted.mem_of_find? hfind
        exact hleaves (hunique.2 _ hmem) hcells
      · cases hcells
        exact List.forall_mem_nil _

/-- What is told of the cells of a row is told of a row that is there and decodes. -/
theorem Handle.exists_cells {key : Bytes} {superColumn : Option Bytes} {predicate : SlicePredicate}
    {β : Type} {f : List Cell → β} {b : β}
    (hread : ((t.row? key).bind fun row =>
      ((h.decode (t.slice row superColumn predicate)).map f).toOption) = some b) :
    ∃ row cells, t.row? key = some row ∧
      h.decode (t.slice row superColumn predicate) = .ok cells ∧ f cells = b := by
  obtain ⟨row, hrow, hread⟩ := Option.bind_eq_some_iff.1 hread
  cases hcells : h.decode (t.slice row superColumn predicate) with
  | error e =>
    rw [hcells] at hread
    cases hread
  | ok cells =>
    rw [hcells] at hread
    exact ⟨row, cells, hrow, hcells, Option.some.inj hread⟩

end Decoding

/-! ## Names that handles pack -/

section Packing

variable {h : Handle} {t : Store.Table} {name : Bytes} {v : Value}

private theorem Handle.Agrees.plain_of_packLeafName (hagrees : h.Agrees t)
    (hname : h.packLeafName v = .ok name) :
    t.leafComparator.Plain name := by
  rw [packLeafName, hagrees.columnType, packName_eq_ok] at hname
  exact .inr ⟨v, hname.1⟩

private theorem Handle.Agrees.plain_of_packSuperName (hagrees : h.Agrees t)
    (hname : h.packSuperName v = .ok name) : t.comparator.Plain name ∧
    t.comparator.Accepts name := by
  obtain ⟨hsuper, -, hexact⟩ := exact_of_packSuperName hagrees hname
  rw [packSuperName, hagrees.superType, hsuper, if_pos rfl] at hname
  exact ⟨.inr ⟨v, (packName_eq_ok.1 hname).1⟩, hexact.holds⟩

private theorem Handle.Agrees.plain_of_packSuperColumn (hagrees : h.Agrees t)
    {superColumn : Option Value}
    {packed : Option Bytes} (hpacked : h.packSuperColumn superColumn = .ok packed) :
    ∀ name ∈ packed, t.comparator.Plain name ∧ t.comparator.Accepts name := by
  intro name hname
  cases superColumn with
  | none =>
    cases hpacked
    cases hname
  | some superColumn =>
    obtain ⟨name', hname', rfl⟩ := map_eq_ok.1 hpacked
    cases hname
    exact hagrees.plain_of_packSuperName hname'

/-- All names in what a handle asks a table to write are plain. -/
structure Handle.WritesPlain (h : Handle) (t : Store.Table) : Prop where
  insert : ∀ columns o mutations, h.insertMutations columns o = .ok mutations →
    ∀ mutation ∈ mutations, ∀ w ∈ mutation.writes, w.Plain t
  count : ∀ column amount superColumn mutation,
    h.counterMutation column amount superColumn = .ok mutation → ∀ w ∈ mutation.writes, w.Plain t
  add : ∀ superColumn parent column name amount, h.parent superColumn = .ok parent →
    h.packLeafName column = .ok name →
    (Store.Write.increment parent.superColumn ⟨name, amount⟩).Plain t

/-- A handle with the types of a table packs all names for it. -/
theorem Handle.Agrees.writesPlain (hagrees : h.Agrees t) : h.WritesPlain t where
  insert columns o mutations hmutations mutation hmutation w hw := by
    have hcolumn : ∀ {column : Value × Value} {c : Column}, h.packColumn o column = .ok c →
        t.leafComparator.Plain c.name := by
      intro column c hc
      obtain ⟨name, hname, value, -, rfl⟩ := packColumn_eq_ok.1 hc
      exact hagrees.plain_of_packLeafName hname
    have hwrites := (of_insertMutations hmutations).2.writes w
      (List.mem_flatMap.2 ⟨mutation, hmutation, hw⟩)
    -- A handle packs every name that it writes, on both levels.
    cases w with
    | column c =>
      obtain ⟨-, column, hc⟩ := hwrites
      exact hcolumn hc
    | superColumn name columns =>
      obtain ⟨-, ⟨v, hname⟩, -, hcolumns⟩ := hwrites
      refine ⟨hagrees.plain_of_packSuperName hname, fun c hc => ?_⟩
      obtain ⟨column, hcolumn'⟩ := hcolumns c hc
      exact hcolumn hcolumn'
    | increment => exact hwrites.elim
    | delete => trivial
  count column amount superColumn mutation hmutation w hw := by
    obtain ⟨-, name, hname, packed, hpacked, -, rfl⟩ := counterMutation_eq_ok.1 hmutation
    have hplain : (Store.Write.increment packed ⟨name, amount⟩).Plain t :=
      ⟨hagrees.plain_of_packSuperColumn hpacked, hagrees.plain_of_packLeafName hname⟩
    cases packed with
    | none => exact List.mem_singleton.1 hw ▸ hplain
    | some packed => exact List.mem_singleton.1 hw ▸ hplain
  add superColumn parent column name amount hparent hname := by
    simp only [Handle.parent, bind_eq_ok, pure_eq_ok] at hparent
    obtain ⟨packed, hpacked, rfl⟩ := hparent
    exact ⟨hagrees.plain_of_packSuperColumn hpacked, hagrees.plain_of_packLeafName hname⟩

end Packing

/-! ## Main result -/

section Stored

open Store (countedNames tableWrites)

/-- In every reachable state, two columns of a row, or two sub-columns of a super column, that read
as one name have names of different bytes. These differ in nothing but bytes that reading does not
look at, and are not both plain. So it is for super columns, if those in which counters were
incremented decode. Hence no two names of a row read as one if plain names were written only, as
handles with the types of the table do, and then whatever is read of the row is unambiguous. -/
theorem logical_names_differ {registry : Registry} {keyspace : KeyspaceDef}
    {operations : List Store.Operation} {name : String} {t : Store.Table}
    (ht : ((Store.ofKeyspace registry keyspace).run operations).table name = .ok t) :
    let moments := (Store.ofKeyspace registry keyspace).trace operations
    (∀ e ∈ t.rows, e.2.LeavesDiffer t) ∧
      ((t.holdsCounters = true →
          ∀ superColumn ∈ countedNames moments name, t.comparator.Accepts superColumn) →
        ∀ e ∈ t.rows, e.2.SupersDiffer t) ∧
      ((∀ w ∈ tableWrites moments name, w.Plain t) → ∀ e ∈ t.rows, e.2.Unique t ∧
        ∀ h : Handle, h.Agrees t → ∀ superColumn predicate cells,
          h.decode (t.slice e.2 superColumn predicate) = .ok cells →
            ∀ key, Row.Unambiguous ⟨key, cells⟩) ∧
      ∀ h : Handle, h.Agrees t → h.WritesPlain t := by
  intro moments
  refine ⟨Store.leavesDiffer_of_run ht, Store.supersDiffer_of_trace ht, fun hplain e he => ?_,
    fun h hagrees => hagrees.writesPlain⟩
  -- Plain names that read as one value have the same bytes, and no row has those twice.
  have hunique := Store.unique_of_trace ht hplain e he
  refine ⟨hunique, fun h hagrees superColumn predicate cells hcells => ?_⟩
  exact hagrees.unambiguous (Store.leavesWellFormed_of_run ht e he) hunique hcells

theorem logical_names_differ_wiki :
    ∃ links visits, ((Store.ofKeyspace .standard wiki).run wikiRun).table "links" = .ok links ∧
      ((Store.ofKeyspace .standard wiki).run wikiRun).table "visits" = .ok visits ∧
      (∀ e ∈ visits.rows, e.2.Unique visits) ∧ ∃ row cells, links.row? [107] = some row ∧
        wikiLinks.handle.decode (links.slice row none (.full 100)) = .ok cells ∧ cells.length = 2 ∧
        Row.Unambiguous ⟨.bytes [107], cells⟩ := by
  let moments := (Store.ofKeyspace .standard wiki).trace wikiRun
  obtain ⟨links, hlinks, hagrees, hemptied⟩ := @agrees_wiki wikiLinks (by decide +kernel) wikiRun
  obtain ⟨visits, hvisits, -, hemptied'⟩ := @agrees_wiki wikiVisits (by decide +kernel) wikiRun
  -- Both tables were written under plain names only.
  have hwrites : tableWrites moments "links" =
        [.column ⟨[0, 1, 97, 0], [120], 1, none⟩, .column ⟨[0, 1, 98, 0], [121], 1, none⟩] ∧
      tableWrites moments "visits" = [.increment (some [0, 0, 0, 0, 0, 0, 0, 5]) ⟨[97], 2⟩] := by
    decide +kernel
  have hplain : ∀ w ∈ tableWrites moments "links", w.Plain links := by
    have htype : links.leafComparator = .composite [.utf8] :=
      (congrArg Store.Table.leafComparator hemptied).trans (by decide +kernel)
    rw [hwrites.1, List.forall_mem_cons, List.forall_mem_singleton, Store.Write.Plain,
      Store.Write.Plain, htype]
    exact ⟨.inr ⟨.composite [.text "a"], by decide +kernel⟩,
      .inr ⟨.composite [.text "b"], by decide +kernel⟩⟩
  have hplain' : ∀ w ∈ tableWrites moments "visits", w.Plain visits := by
    have htype : visits.comparator = .long :=
      (congrArg Store.Table.comparator hemptied').trans (by decide +kernel)
    have htype' : visits.leafComparator = .bytes :=
      (congrArg Store.Table.leafComparator hemptied').trans (by decide +kernel)
    rw [hwrites.2, List.forall_mem_singleton, Store.Write.Plain, htype, htype']
    refine ⟨fun name hname => ?_, .inl rfl⟩
    cases hname
    exact ⟨.inl rfl, .long 5, by decide +kernel⟩
  have hread : (fun t : Store.Table => (t.row? [107]).bind fun row =>
      ((wikiLinks.handle.decode (t.slice row none (.full 100))).map List.length).toOption) <$>
        ((Store.ofKeyspace .standard wiki).run wikiRun).table "links" = .ok (some 2) := by
    decide +kernel
  have hlinks' : ((Store.ofKeyspace .standard wiki).run wikiRun).table "links" = .ok links := hlinks
  rw [hlinks'] at hread
  obtain ⟨row, cells, hrow, hcells, hlength⟩ := Handle.exists_cells (Except.ok.inj hread)
  obtain ⟨key, hmem⟩ := Sorted.mem_of_find? hrow
  obtain ⟨-, -, hunique, -⟩ := logical_names_differ hlinks
  obtain ⟨-, -, hunique', -⟩ := logical_names_differ hvisits
  refine ⟨links, visits, hlinks, hvisits, fun e he => (hunique' hplain' e he).1, row, cells, hrow,
    hcells, hlength, ?_⟩
  exact (hunique hplain _ hmem).2 _ hagrees none (.full 100) cells hcells (.bytes [107])

end Stored

/-! ## Names that are not packed -/

/-- The names at the top of a row. -/
def Store.RowData.topNames : Store.RowData → List Bytes
  | .flat leaves => leaves.map (·.1)
  | .grouped supers => supers.map (·.1)

/-- Two names at the top of a row that read as one value. -/
theorem Store.not_unique {registry : Registry} {keyspace : KeyspaceDef}
    {history : List Store.Operation} {name : String} {t : Store.Table} {key : Bytes}
    {row : Store.RowData} (ht : ((ofKeyspace registry keyspace).run history).table name = .ok t)
    (hrow : t.row? key = some row) {a b : Bytes} (hnames : [a, b].Sublist row.topNames) {v : Value}
    (ha : t.comparator.unpack a = .ok v) (hb : t.comparator.unpack b = .ok v) : ¬row.Unique t := by
  intro hunique
  obtain ⟨key', hmem⟩ := Sorted.mem_of_find? hrow
  have hlayout : row.LeavesWellFormed t := leavesWellFormed_of_run ht _ hmem
  -- At the top of the row no two names would read as one value.
  have htop : row.topNames.Pairwise fun a b =>
      ∀ v, t.comparator.unpack a = .ok v → t.comparator.unpack b ≠ .ok v := by
    cases row with
    | flat leaves =>
      rw [RowData.Unique, Table.leafComparator, hlayout.1] at hunique
      exact List.pairwise_map.2 hunique
    | grouped supers => exact List.pairwise_map.2 hunique.1
  exact (List.pairwise_cons.1 (htop.sublist hnames)).1 b List.mem_cons_self v ha hb

/-- Two cells of one name and of different values are not both found. -/
theorem Row.not_unambiguous {r : Row} {name : Value} {x y : Option Value}
    (hcells : (r.cells.map fun c => (c.name, c.value?)) = [(name, x), (name, y)]) (hne : x ≠ y) :
    ¬r.Unambiguous := by
  intro hfound
  obtain ⟨first, rest, hr, hfirst, hrest⟩ := List.map_eq_cons_iff.1 hcells
  obtain ⟨second, _, rfl, hsecond, -⟩ := List.map_eq_cons_iff.1 hrest
  obtain ⟨hname, rfl⟩ := Prod.mk.inj hfirst
  obtain ⟨hname', rfl⟩ := Prod.mk.inj hsecond
  -- The second cell would have to be found by its name, but the first one is.
  have hget : r.get? second.name = some second := by
    refine (hfound second ?_).1
    rw [hr]
    exact List.mem_cons_of_mem _ List.mem_cons_self
  have hget' : r.get? second.name = some first := by
    rw [get?, hr]
    exact List.find?_cons_of_pos (beq_iff_eq.2 (hname.trans hname'.symm))
  rw [Option.some.inj (hget.symm.trans hget')] at hne
  exact hne rfl

/-- The handle of a table that is opened to write and read raw bytes. -/
def TableDef.rawHandle (d : TableDef) : Handle :=
  ⟨.ofDef .standard (HandleOptions.default.packAll false) d, HandleOptions.default.packAll false⟩

/-- Two links whose names differ in their end bytes only. -/
def alikeLinks : List (Bytes × Bytes) := [([0, 1, 97, 0], [120]), ([0, 1, 97, 1], [121])]

/-- A link that is written in raw bytes. -/
def rawLink (link : Bytes × Bytes) : MutationMap :=
  .push .empty [107] "links" (.insert (.column ⟨link.1, link.2, 1, none⟩))

/-- Readers of pages by their UUIDs. -/
def wikiReaders : TableDef :=
  { TableDef.ofName "wiki" "readers" with
    layout := .super, comparator := "UUIDType", validation := "CounterColumnType" }

/-- A UUID of some version, told by its first byte. -/
def reader (first version : UInt8) : Bytes :=
  [first, 0, 0, 0, 0, 0, 16 * version, 0, 128, 0, 0, 0, 0, 0, 0, 0]

/-- Readers who are counted, among them one that is no UUID. -/
def strayReaders : List Store.Operation :=
  [reader 0 4, [128], reader 254 1, reader 255 1, reader 0 4].map fun name =>
    .add [107] ⟨"readers", some name⟩ ⟨[97], 1⟩

/-- The links are two columns of one row, and read as cells of one name. -/
theorem not_unambiguous_alikeLinks :
    ∃ links row cells,
      ((Store.ofKeyspace .standard wiki).run
        (alikeLinks.map fun link => .batch (rawLink link))).table
        "links" = .ok links ∧
        links.row? [107] = some row ∧ ¬row.Unique links ∧
        wikiLinks.handle.decode (links.slice row none (.full 100)) = .ok cells ∧
        ¬Row.Unambiguous ⟨.bytes [107], cells⟩ := by
  let history : List Store.Operation := alikeLinks.map fun link => .batch (rawLink link)
  obtain ⟨links, hlinks, -, hemptied⟩ := @agrees_wiki wikiLinks (by decide +kernel) history
  have htype : links.comparator = .composite [.utf8] :=
    (congrArg Store.Table.comparator hemptied).trans (by decide +kernel)
  -- The row has both names, and a read of it shows two cells under one.
  have hnames : (fun t : Store.Table => (t.row? [107]).map Store.RowData.topNames) <$>
      ((Store.ofKeyspace .standard wiki).run history).table wikiLinks.name =
        .ok (some [[0, 1, 97, 0], [0, 1, 97, 1]]) := by
    decide +kernel
  have hread : (fun t : Store.Table => (t.row? [107]).bind fun row =>
      ((wikiLinks.handle.decode (t.slice row none (.full 100))).map fun cells =>
        cells.map fun c => (c.name, c.value?)).toOption) <$>
      ((Store.ofKeyspace .standard wiki).run history).table wikiLinks.name =
        .ok (some [(.composite [.text "a"], some (.text "x")),
          (.composite [.text "a"], some (.text "y"))]) := by
    decide +kernel
  rw [hlinks] at hnames hread
  obtain ⟨row, cells, hrow, hcells, hread⟩ := Handle.exists_cells (Except.ok.inj hread)
  have hboth : [[0, 1, 97, 0], [0, 1, 97, 1]].Sublist row.topNames := by
    obtain ⟨row', hrow', hnames⟩ := Option.map_eq_some_iff.1 (Except.ok.inj hnames)
    obtain rfl := Option.some.inj (hrow.symm.trans hrow')
    exact hnames ▸ List.Sublist.refl _
  have hunpack : links.comparator.unpack [0, 1, 97, 0] = .ok (.composite [.text "a"]) ∧
      links.comparator.unpack [0, 1, 97, 1] = .ok (.composite [.text "a"]) := by
    rw [htype]
    decide +kernel
  exact ⟨links, row, cells, hlinks, hrow, Store.not_unique hlinks hrow hboth hunpack.1 hunpack.2,
    hcells, Row.not_unambiguous hread (by decide)⟩

/-- UUIDs are ordered by their versions first, but by their bytes against a name that is no UUID.
Such a row is not sorted, so a search misses a reader in it, who then gets another super column. -/
theorem not_unique_strayReaders :
    ∃ readers row,
      ((Store.ofKeyspace .standard ((KeyspaceDef.ofName "wiki").withTable wikiReaders)).run
        strayReaders).table "readers" = .ok readers ∧
        readers.row? [107] = some row ∧ ¬row.Unique readers := by
  let registered := Store.ofKeyspace .standard ((KeyspaceDef.ofName "wiki").withTable wikiReaders)
  -- Both names have the same bytes.
  have hread : (fun t : Store.Table => (t.comparator, (t.row? [107]).map fun row =>
      decide ([reader 0 4, reader 0 4].Sublist row.topNames))) <$>
      (registered.run strayReaders).table "readers" = .ok (.uuid, some true) := by
    decide +kernel
  cases hreaders : (registered.run strayReaders).table "readers" with
  | error e =>
    rw [hreaders] at hread
    cases hread
  | ok readers =>
    rw [hreaders] at hread
    obtain ⟨htype, hread⟩ := Prod.mk.inj (Except.ok.inj hread)
    obtain ⟨row, hrow, hnames⟩ := Option.map_eq_some_iff.1 hread
    have hunpack : ∃ v, readers.comparator.unpack (reader 0 4) = .ok v := by
      rw [htype]
      exact isOk_iff.1 (by decide +kernel)
    obtain ⟨v, hv⟩ := hunpack
    refine ⟨readers, row, rfl, hrow, ?_⟩
    exact Store.not_unique hreaders hrow (of_decide_eq_true hnames) hv hv

/-- A handle that does not pack names writes links whose names read as one value, and a row that is
read finds the first of them only. Super columns in which counters are incremented may even have the
same bytes, once one of them does not decode. -/
theorem logical_names_repeat :
    (∀ link ∈ alikeLinks, wikiLinks.rawHandle.insertMap (.bytes [107])
        (.flat [(.bytes link.1, .bytes link.2)]) ⟨1, none, none⟩ .empty = .ok (rawLink link)) ∧
      (∃ links row cells,
        ((Store.ofKeyspace .standard wiki).run
          (alikeLinks.map fun link => .batch (rawLink link))).table
          "links" = .ok links ∧
          links.row? [107] = some row ∧ ¬row.Unique links ∧
          wikiLinks.handle.decode (links.slice row none (.full 100)) = .ok cells ∧
          ¬Row.Unambiguous ⟨.bytes [107], cells⟩) ∧
      ∃ readers row,
        ((Store.ofKeyspace .standard ((KeyspaceDef.ofName "wiki").withTable wikiReaders)).run
          strayReaders).table "readers" = .ok readers ∧
          readers.row? [107] = some row ∧ ¬row.Unique readers :=
  ⟨by decide +kernel, not_unambiguous_alikeLinks, not_unique_strayReaders⟩

end WideColumn
