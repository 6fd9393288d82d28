import WideColumn.Proofs.Handle.Scan
import WideColumn.Proofs.Handle.Schema
import WideColumn.Proofs.Store.Validity

/-!
# Stored data that decodes

A handle with the types of a table decodes every valid row. The checks of the store make all rows
valid but for two gaps: the super columns that increments name are not checked, and a value may be
stored under a name that compares equal to its own and has another validator.

- `Handle.Agrees.decodesCells`: a handle decodes the cells of a valid row;
- `stored_valid`: what is stored in a reachable state, and when all of it is valid and decodes;
- `stored_invalid`: through either gap, data that no handle of the table decodes.
-/

namespace WideColumn

section Decoding

variable {h : Handle} {t : Store.Table}

private theorem Handle.Agrees.decodesLeaves (hagrees : h.Agrees t) {leaves : Store.Leaves}
    (hvalid : ∀ e ∈ leaves, Store.LeafValid t.validator t.leafComparator e.1 e.2) :
    h.DecodesLeaves leaves := by
  rintro ⟨name, leaf⟩ he
  have hleaf := hvalid _ he
  cases leaf with
  | cell value timestamp ttl =>
    -- a cell was checked on its name and its value, a counter on its name only
    obtain ⟨⟨-, v, hv⟩, w, hw⟩ := hleaf
    refine ⟨.column v w timestamp ttl, ?_⟩
    simp only [Store.Leaf.toEntry, Handle.decodeEntry, Handle.decodeColumn, hagrees.columnType,
      hagrees.validator, hv, hw]
    rfl
  | counter value =>
    obtain ⟨-, v, hv⟩ := hleaf
    refine ⟨.counter v value, ?_⟩
    simp only [Store.Leaf.toEntry, Handle.decodeEntry, Handle.decodeCounter, hagrees.columnType, hv]
    rfl

/-- A handle decodes the cells of a valid row. -/
theorem Handle.Agrees.decodesCells (hagrees : h.Agrees t) {row : Store.RowData}
    (hvalid : Store.RowData.Valid t row) : h.DecodesCells row := by
  cases row with
  | flat leaves =>
    obtain ⟨hsuper, hleaves⟩ := hvalid
    have htype : t.leafComparator = t.comparator := by rw [Store.Table.leafComparator, hsuper]; rfl
    rw [← htype] at hleaves
    exact hagrees.decodesLeaves hleaves
  | grouped supers =>
    obtain ⟨hsuper, hsupers⟩ := hvalid
    have htype : t.leafComparator = t.subcomparator := by
      rw [Store.Table.leafComparator, hsuper]; rfl
    intro e he
    obtain ⟨⟨-, v, hv⟩, hleaves⟩ := hsupers e he
    rw [← htype] at hleaves
    refine ⟨⟨v, ?_⟩, hagrees.decodesLeaves hleaves⟩
    rw [hagrees.sliceType_eq hsuper, hv]
    rfl

end Decoding

/-! ## Main result -/

section Stored

open Store (columnNames countedNames IsName)

/-- In every reachable state, each stored name is non-empty and accepted by its comparator, except
for super columns of counters, which are only known to be named by an increment, and each stored
value is accepted by the validator of a column that was written and compares equal to the stored
one. So if all super columns that increments named can be stored, and columns that compare equal
have the same validator, then everything is valid, and a handle with the types of the table decodes
whatever it reads of a row. -/
theorem stored_valid {registry : Registry} {keyspace : KeyspaceDef}
    {operations : List Store.Operation} {name : String} {t : Store.Table}
    (ht : ((Store.ofKeyspace registry keyspace).run operations).table name = .ok t) :
    let moments := (Store.ofKeyspace registry keyspace).trace operations
    ∀ e ∈ t.rows,
      Store.RowData.Checked t (columnNames moments name) (countedNames moments name) e.2 ∧
      ((∀ superColumn ∈ countedNames moments name, IsName t.comparator superColumn) →
        (∀ a ∈ columnNames moments name, ∀ b ∈ columnNames moments name,
          t.leafComparator.compare a b = .eq → t.validator a = t.validator b) →
        Store.RowData.Valid t e.2 ∧
          ∀ h : Handle, h.Agrees t → ∀ superColumn predicate,
            ∃ cells, h.decode (t.slice e.2 superColumn predicate) = .ok cells) := by
  intro moments e he
  -- What was checked is valid once the names decode and the validators agree.
  have hchecked := Store.checked_trace ht e he
  refine ⟨hchecked, fun hcounted hvalidators => ?_⟩
  have hvalid := hchecked.valid hcounted hvalidators
  refine ⟨hvalid, fun h hagrees superColumn predicate => ?_⟩
  exact (hagrees.decodesCells hvalid).decode superColumn predicate

/-- Links by composite names; the values of one declared column are opaque. -/
def wikiLinks : TableDef :=
  { TableDef.ofName "wiki" "links" with
    comparator := "CompositeType(UTF8Type)", validation := "UTF8Type",
    columns := [⟨[0, 1, 97, 2], "BytesType", false, none⟩] }

/-- Visits of pages by day. -/
def wikiVisits : TableDef :=
  { TableDef.ofName "wiki" "visits" with
    layout := .super, comparator := "LongType", validation := "CounterColumnType" }

def wiki : KeyspaceDef := ((KeyspaceDef.ofName "wiki").withTable wikiLinks).withTable wikiVisits

/-- The handle of a table that is opened without options. -/
def TableDef.handle (d : TableDef) : Handle := ⟨.ofDef .standard .default d, .default⟩

theorem agrees_wiki {d : TableDef} (hd : wiki.table? d.name = some d)
    (history : List Store.Operation) :
    ∃ t, ((Store.ofKeyspace .standard wiki).run history).table d.name = .ok t ∧ d.handle.Agrees t ∧
      t.emptied = (Store.Table.ofDef .standard d).emptied := by
  obtain ⟨t, ht, hemptied⟩ :=
    @Store.table_run .standard wiki (by decide +kernel) d.name d hd history
  exact ⟨t, ht, Handle.agrees_of_emptied rfl rfl hemptied, hemptied⟩

/-- Two links and a visit. -/
def wikiRun : List Store.Operation :=
  [.batch (.push .empty [107] "links" (.insert (.column ⟨[0, 1, 97, 0], [120], 1, none⟩))),
    .batch (.push .empty [107] "links" (.insert (.column ⟨[0, 1, 98, 0], [121], 1, none⟩))),
    .add [107] ⟨"visits", some [0, 0, 0, 0, 0, 0, 0, 5]⟩ ⟨[97], 2⟩]

theorem stored_valid_wiki :
    let s := (Store.ofKeyspace .standard wiki).run wikiRun
    ∃ links visits, s.table "links" = .ok links ∧ s.table "visits" = .ok visits ∧
      links.rows ≠ [] ∧ visits.rows ≠ [] ∧
      (∀ e ∈ links.rows, Store.RowData.Valid links e.2 ∧ ∀ superColumn predicate,
        ∃ cells, wikiLinks.handle.decode (links.slice e.2 superColumn predicate) = .ok cells) ∧
      ∀ e ∈ visits.rows, Store.RowData.Valid visits e.2 ∧ ∀ superColumn predicate,
        ∃ cells, wikiVisits.handle.decode (visits.slice e.2 superColumn predicate) = .ok cells := by
  intro s
  let moments := (Store.ofKeyspace .standard wiki).trace wikiRun
  obtain ⟨links, hlinks, hagrees, hemptied⟩ := @agrees_wiki wikiLinks (by decide +kernel) wikiRun
  obtain ⟨visits, hvisits, hagrees', hemptied'⟩ :=
    @agrees_wiki wikiVisits (by decide +kernel) wikiRun
  have hrow : ∀ {name t}, (fun t : Store.Table => t.rows.length) <$> s.table name = .ok 1 →
      s.table name = .ok t → t.rows ≠ [] := by
    intro name t hlength ht
    rw [ht] at hlength
    exact List.ne_nil_of_length_eq_add_one (Except.ok.inj hlength)
  -- These are the names that the run writes and counts under.
  have hnames : columnNames moments "links" = [[0, 1, 97, 0], [0, 1, 98, 0]] ∧
      countedNames moments "links" = [] ∧ columnNames moments "visits" = [] ∧
      countedNames moments "visits" = [[0, 0, 0, 0, 0, 0, 0, 5]] := by
    decide +kernel
  obtain ⟨hcolumns, hcounted, hcolumns', hcounted'⟩ := hnames
  have hnone : ∀ superColumn ∈ countedNames moments "links",
      IsName links.comparator superColumn := by
    rw [hcounted]
    exact nofun
  refine ⟨links, visits, hlinks, hvisits, hrow (by decide +kernel) hlinks,
    hrow (by decide +kernel) hvisits, fun e he => ?_, fun e he => ?_⟩
  · -- the two links have different names
    have htype : links.leafComparator = .composite [.utf8] :=
      (congrArg Store.Table.leafComparator hemptied).trans (by decide +kernel)
    have hdifferent : ∀ a ∈ columnNames moments "links", ∀ b ∈ columnNames moments "links",
        links.leafComparator.compare a b = .eq → a = b := by
      rw [hcolumns, htype]
      decide +kernel
    obtain ⟨hvalid, hdecodes⟩ := (stored_valid hlinks e he).2 hnone fun a ha b hb hsame =>
      congrArg links.validator (hdifferent a ha b hb hsame)
    exact ⟨hvalid, hdecodes _ hagrees⟩
  · -- the day of the visit is a number of eight bytes
    have htype : visits.comparator = .long :=
      (congrArg Store.Table.comparator hemptied').trans (by decide +kernel)
    have hday : ∀ day ∈ countedNames moments "visits", IsName visits.comparator day := by
      rw [hcounted', htype, List.forall_mem_singleton]
      exact ⟨by decide, .long 5, by decide +kernel⟩
    have hsame : ∀ a ∈ columnNames moments "visits", ∀ b ∈ columnNames moments "visits",
        visits.leafComparator.compare a b = .eq → visits.validator a = visits.validator b := by
      rw [hcolumns']
      exact nofun
    obtain ⟨hvalid, hdecodes⟩ := (stored_valid hvisits e he).2 hday hsame
    exact ⟨hvalid, hdecodes _ hagrees'⟩

end Stored

/-- A row that is not valid, and that a handle with the types of its table cannot decode. -/
def Handle.Misreads (h : Handle) (s : Store) (key : Bytes) : Prop :=
  ∃ t row, s.table h.name = .ok t ∧ t.row? key = some row ∧ h.Agrees t ∧
  ¬Store.RowData.Valid t row ∧
    ∀ cells, h.decode (t.slice row none (.full 100)) ≠ .ok cells

/-- A row that is not decoded is not valid. -/
theorem Handle.misreads_of_decode {h : Handle} {s : Store} {key : Bytes} {t : Store.Table}
    (ht : s.table h.name = .ok t) (hagrees : h.Agrees t)
    (hdecode : ((t.row? key).map fun row => (h.decode (t.slice row none (.full 100))).isOk) =
      some false) :
    h.Misreads s key := by
  obtain ⟨row, hrow, hdecode⟩ := Option.map_eq_some_iff.1 hdecode
  have hfails : ∀ cells, h.decode (t.slice row none (.full 100)) ≠ .ok cells := by
    intro cells hcells
    rw [hcells] at hdecode
    cases hdecode
  refine ⟨t, row, ht, hrow, hagrees, fun hvalid => ?_, hfails⟩
  obtain ⟨cells, hcells⟩ := @Handle.DecodesCells.decode h t row (hagrees.decodesCells hvalid) none
    (.full 100)
  exact hfails cells hcells

/-- A super column that does not decode, named by an increment. -/
def strayVisit : List Store.Operation := [.add [107] ⟨"visits", some [1]⟩ ⟨[97], 5⟩]

/-- A declared column that is stored under a name that was written before and compares equal. -/
def strayLink : List Store.Operation :=
  [.batch (.push .empty [107] "links" (.insert (.column ⟨[0, 1, 97, 1], [120], 1, none⟩))),
    .batch (.push .empty [107] "links" (.insert (.column ⟨[0, 1, 97, 2], [255], 2, none⟩)))]

theorem stored_invalid :
    wikiVisits.handle.Misreads ((Store.ofKeyspace .standard wiki).run strayVisit) [107] ∧
      wikiLinks.handle.Misreads ((Store.ofKeyspace .standard wiki).run strayLink) [107] := by
  obtain ⟨visits, hvisits, hagrees, -⟩ := @agrees_wiki wikiVisits (by decide +kernel) strayVisit
  obtain ⟨links, hlinks, hagrees', -⟩ := @agrees_wiki wikiLinks (by decide +kernel) strayLink
  -- The row is there, but a handle with the types of its table cannot decode it.
  have hdecode : (fun t : Store.Table => (t.row? [107]).map fun row =>
      (wikiVisits.handle.decode (t.slice row none (.full 100))).isOk) <$>
        ((Store.ofKeyspace .standard wiki).run strayVisit).table wikiVisits.name =
        .ok (some false) := by
    decide +kernel
  have hdecode' : (fun t : Store.Table => (t.row? [107]).map fun row =>
      (wikiLinks.handle.decode (t.slice row none (.full 100))).isOk) <$>
        ((Store.ofKeyspace .standard wiki).run strayLink).table wikiLinks.name =
        .ok (some false) := by
    decide +kernel
  rw [hvisits] at hdecode
  rw [hlinks] at hdecode'
  exact ⟨Handle.misreads_of_decode hvisits hagrees (Except.ok.inj hdecode),
    Handle.misreads_of_decode hlinks hagrees' (Except.ok.inj hdecode')⟩

end WideColumn
