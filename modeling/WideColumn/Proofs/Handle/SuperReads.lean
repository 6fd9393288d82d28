import WideColumn.Proofs.Batch.SuperColumns
import WideColumn.Proofs.Handle.Counts
import WideColumn.Proofs.Handle.LogicalNames

/-!
# Super columns that are read alone

A read of a row shows its super columns with all that is inside them. A read of one super column
looks its packed name up and shows its leaves, entry by entry. Both show the same cells, as long as
the super columns of the row stand in the order that the search relies on.

- `Handle.StoresSuper`: a stored super column, and the cell that a read of its row shows;
- `Handle.exists_storesSuper`: every super column that is read is stored;
- `Handle.StoresSuper.getSuper`: and is found again by its name;
- `reads_agree`: rows, counts and super columns that are read from a reachable state;
- `super_column_not_found`: a super column that a row shows and that is not found.
-/

namespace WideColumn

/-! ## All columns -/

/-- All columns, up to a count. -/
structure SliceQuery.Unbounded (q : SliceQuery) : Prop where
  names : q.names = none
  start : q.start = .unbounded
  finish : q.finish = .unbounded

theorem SliceQuery.Unbounded.predicate {q : SliceQuery} (hq : q.Unbounded)
    (hcount : 0 < limitOf q.count) (type : DataType) :
    q.predicate type = .ok (.ofRange ⟨[], [], q.reversed, q.count⟩) := by
  have hnonneg : ¬q.count < 0 := by
    rw [Int32.lt_iff_toInt_lt]
    rw [limitOf] at hcount
    simp only [Int32.toInt_zero]
    omega
  rw [SliceQuery.predicate, hq.names, hq.start, hq.finish]
  simp only [if_neg hnonneg]
  rfl

/-- A range without ends that allows for all entries selects all of them. -/
theorem Store.select_unbounded {α : Type} (order : Bytes → Bytes → Ordering)
    {entries : Sorted Bytes α} {count : Int32} (hcount : entries.length ≤ limitOf count)
    (reversed : Bool) :
    select order (.ofRange ⟨[], [], reversed, count⟩) entries =
      if reversed then entries.reverse else entries := by
  have hall : ∀ e ∈ SliceRange.reading ⟨[], [], reversed, count⟩ entries,
      SliceRange.holds order ⟨[], [], reversed, count⟩ e.1 = true := by
    intro e _
    simp [SliceRange.holds, within]
  rw [select_range_eq rfl rfl, List.filter_eq_self.2 hall, List.take_of_length_le]
  · rfl
  · rw [(reading_perm _ entries).length_eq]
    exact hcount

/-! ## Cells of super columns -/

section Decoding

variable {h : Handle} {t : Store.Table} {packed : Bytes} {name : Value} {inner : List Cell}

/-- A leaf is not read as a super column. -/
theorem Handle.ne_super_of_leaf {leaf : Store.Leaf} :
    h.decodeEntry (leaf.toEntry packed) ≠ .ok (.super name inner) := by
  intro hcell
  cases leaf with
  | cell value timestamp ttl =>
    simp only [Store.Leaf.toEntry, decodeEntry, decodeColumn, bind_eq_ok, pure_eq_ok] at hcell
    obtain ⟨_, -, _, -, heq⟩ := hcell
    cases heq
  | counter value =>
    simp only [Store.Leaf.toEntry, decodeEntry, decodeCounter, bind_eq_ok, pure_eq_ok] at hcell
    obtain ⟨_, -, heq⟩ := hcell
    cases heq

/-- A super column is read as its name and what its leaves are read as. -/
theorem Handle.decodeEntry_superEntry {type : DataType} {leaves : Store.Leaves}
    (hleaves : Store.Leaves.WellFormed type t.holdsCounters leaves) :
    h.decodeEntry (t.superEntry packed leaves) = do
      let name ← liftMarshal ((h.schema.sliceType false).unpack packed)
      return .super name (← h.decode leaves.toEntries) := by
  -- Leaves are all columns or all counters, so none is left out of the super column.
  rw [← (Store.ofKind_of_wellFormed hleaves).complete, Store.Table.superEntry, decode]
  split
  · rw [List.mapM_map]
    rfl
  · rw [List.mapM_map]
    rfl

private theorem Handle.decode_of_superEntry {type : DataType} {leaves : Store.Leaves}
    (hleaves : Store.Leaves.WellFormed type t.holdsCounters leaves)
    (hcell : h.decodeEntry (t.superEntry packed leaves) = .ok (.super name inner)) :
    h.decode leaves.toEntries = .ok inner := by
  simp only [decodeEntry_superEntry hleaves, bind_eq_ok, pure_eq_ok] at hcell
  obtain ⟨_, -, cells, hcells, heq⟩ := hcell
  cases heq
  exact hcells

/-- Reading all leaves, from either end, shows all cells, from the same end. -/
theorem Handle.decode_unbounded {leaves : Store.Leaves}
    (hcells : h.decode leaves.toEntries = .ok inner) (order : Bytes → Bytes → Ordering)
    {count : Int32} (hcount : inner.length ≤ limitOf count) (reversed : Bool) :
    h.decode (Store.Leaves.toEntries
        (Store.select order (.ofRange ⟨[], [], reversed, count⟩) leaves)) =
      .ok (if reversed then inner.reverse else inner) := by
  -- As many cells are read as there are leaves, so the count allows for all of these.
  have hlength : inner.length = leaves.length := by
    rw [(mapM_eq_ok_iff.1 hcells).length_eq, Store.Leaves.toEntries, List.length_map]
  rw [hlength] at hcount
  rw [Store.select_unbounded order hcount]
  cases reversed with
  | false => exact hcells
  | true =>
    simp only [if_true, Store.Leaves.toEntries, List.map_reverse]
    exact mapM_reverse hcells

end Decoding

/-! ## Stored super columns -/

/-- The row of a key has a super column of a packed name, which a handle reads as a cell. -/
def Handle.StoresSuper (h : Handle) (store : Store) (key : Value) (packed : Bytes)
    (cell : Cell) : Prop :=
  ∃ t packedKey supers leaves, store.table h.name = .ok t ∧ h.packKey key = .ok packedKey ∧
    t.row? packedKey = some (.grouped supers) ∧ (packed, leaves) ∈ supers ∧
    h.decodeEntry (t.superEntry packed leaves) = .ok cell

section Reads

variable {h : Handle} {key name : Value} {q : SliceQuery} {s s' : Pool × Cluster} {packed : Bytes}
  {inner : List Cell}

/-- A read that has to find a row finds it as a read that need not. -/
theorem Handle.get_eq_ok {row : Row} :
    h.get key q s = .ok row s' ↔ h.get? key q s = .ok (some row) s' := by
  rw [get, Client.bind_eq_ok]
  constructor
  · rintro ⟨found, s₁, hfound, hrow⟩
    cases found with
    | none => cases hrow
    | some found =>
      cases hrow
      exact hfound
  · intro hfound
    exact ⟨some row, s', hfound, rfl⟩

/-- Every super column that is read is stored. -/
theorem Handle.exists_storesSuper {row : Row} (hget : h.get key q s = .ok row s')
    (hmem : .super name inner ∈ row.cells) :
    ∃ packed, h.StoresSuper s.2.store key packed (.super name inner) := by
  obtain ⟨packedKey, entries, hkey, ⟨parent, predicate, hparent, -, hslice⟩, -, hcells⟩ :=
    Handle.of_get? (Handle.get_eq_ok.1 hget)
  obtain ⟨entry, hentry, hcell⟩ := (mem_of_mapM hcells).1 hmem
  simp only [Handle.parent, bind_eq_ok, pure_eq_ok] at hparent
  obtain ⟨superColumn, -, rfl⟩ := hparent
  simp only [Store.slice, bind_eq_ok] at hslice
  obtain ⟨t, ht, -, -, hslice⟩ := hslice
  -- Leaves are read as other cells, so the entry is of a whole super column.
  have hleaf : ∀ {leaves : Store.Leaves}, entry ∉ leaves.toEntries := by
    intro leaves hentry
    obtain ⟨e, -, rfl⟩ := List.mem_map.1 hentry
    exact ne_super_of_leaf hcell
  cases hrow : t.row? packedKey with
  | none =>
    rw [hrow] at hslice
    cases hslice
    cases hentry
  | some row =>
    rw [hrow] at hslice
    cases hslice
    cases row with
    | flat leaves => exact absurd hentry hleaf
    | grouped supers =>
      cases superColumn with
      | none =>
        obtain ⟨⟨packed, leaves⟩, he, rfl⟩ := List.mem_map.1 hentry
        exact ⟨packed, t, packedKey, supers, leaves, ht, hkey, hrow, mem_of_mem_select he, hcell⟩
      | some superColumn =>
        simp only [Store.Table.slice] at hentry
        split at hentry
        · exact absurd hentry hleaf
        · cases hentry

/-- A stored super column is listed under its packed name with all of its leaves. -/
theorem Handle.StoresSuper.listed {store : Store}
    (hstores : h.StoresSuper store key packed (.super name inner))
    (hwell : ∀ t, store.table h.name = .ok t → t.WellFormed)
    (hname : h.packSuperName name = .ok packed) (hq : q.Unbounded) (hinner : inner ≠ [])
    (hcount : inner.length ≤ limitOf q.count) :
    ∃ entries, entries ≠ [] ∧
      h.listed store key { q with superColumn := some name } = .ok entries ∧
      h.decode entries = .ok (if q.reversed then inner.reverse else inner) := by
  obtain ⟨t, packedKey, supers, leaves, ht, hkey, hrow, hmem, hcell⟩ := hstores
  obtain ⟨k, hrows⟩ := Sorted.mem_of_find? hrow
  obtain ⟨hsuper, hinc, hkeys, hleaves⟩ := (hwell t ht).rows _ hrows
  have hpositive : 0 < limitOf q.count :=
    Nat.lt_of_lt_of_le (List.length_pos_iff.2 hinner) hcount
  have hcells := decode_unbounded (decode_of_superEntry (hleaves _ hmem) hcell) t.suborder hcount
    q.reversed
  -- The names stand in order, so the search finds the one that compares equal.
  have hfind : supers.find? t.order packed = some leaves :=
    (Sorted.find?_eq_some_iff_of_names hkeys hinc).2
      ⟨packed, hmem, (DataType.orderedOn_compare t.comparator).self (hkeys _ hmem)⟩
  refine ⟨_, fun hnil => ?_, ?_, hcells⟩
  · -- As many cells are read as entries are listed.
    rw [hnil] at hcells
    have hnone := Except.ok.inj hcells
    split at hnone
    · exact hinner (List.reverse_eq_nil_iff.1 hnone.symm)
    · exact hinner hnone.symm
  · have hparent : h.parent (some name) = .ok ⟨h.name, some packed⟩ := by
      rw [Handle.parent, packSuperColumn, hname]
      rfl
    have hpredicate : h.predicate { q with superColumn := some name } =
        .ok (.ofRange ⟨[], [], q.reversed, q.count⟩) := by
      have hall : ({ q with superColumn := some name } : SliceQuery).Unbounded :=
        ⟨hq.names, hq.start, hq.finish⟩
      exact hall.predicate hpositive _
    have hcheck : t.checkParent (some packed) = .ok () := by
      rw [Store.Table.checkParent, hsuper]
      rfl
    simp only [Handle.listed, hkey, hparent, hpredicate, ok_bind, Store.slice, ht, hcheck, hrow,
      Store.Table.slice, hfind]
    rfl

/-- A super column that is stored under its packed name is found by its name. -/
theorem Handle.StoresSuper.getSuper (hserving : Serving s)
    (hwell : ∀ t, s.2.store.table h.name = .ok t → t.WellFormed)
    (hstores : h.StoresSuper s.2.store key packed (.super name inner))
    (hname : h.packSuperName name = .ok packed) (hq : q.Unbounded) (hinner : inner ≠ [])
    (hcount : inner.length ≤ limitOf q.count) :
    ∃ s', h.getSuper key name q s =
      .ok (.super name (if q.reversed then inner.reverse else inner)) s' := by
  obtain ⟨entries, hne, hlisted, hcells⟩ := hstores.listed hwell hname hq hinner hcount
  -- Asked for the super column, the store lists what is stored in it.
  obtain ⟨s', -, hget⟩ :=
    @get?_eq_rowListed h s.2.store s key { q with superColumn := some name } ⟨hserving, rfl⟩
  have hempty : ¬entries.isEmpty = true := fun hnil => hne (List.isEmpty_iff.1 hnil)
  rw [rowListed, hlisted, ok_bind, if_neg hempty, hcells] at hget
  refine ⟨s', ?_⟩
  rw [Handle.getSuper, Client.bind_of_ok (get_eq_ok.2 hget)]
  rfl

end Reads

/-! ## Main result -/

section Main

open Store (countedNames)

/-- Reads of a table agree in every reachable state in which its rows can be read, for a pool that
serves. A count is the number of cells that a read of the row shows. A count of several rows, in
pieces of any size, answers each key in order, repeated ones as well, with the count of its row; if
something cannot be packed it fails, and then one of the counts of single rows does. Every super
column that a row shows is stored. If there are cells inside, and its name packs to the bytes it is
stored under, a read of all of it shows these cells in this order. For counter tables this is so if
all super columns decode in which counters were incremented. -/
theorem reads_agree {registry : Registry} {keyspace : KeyspaceDef}
    {operations : List Store.Operation} {h : Handle} {s : Pool × Cluster} (hserving : Serving s)
    (hreached : s.2.store = (Store.ofKeyspace registry keyspace).run operations)
    (hreadable : h.Readable s.2.store) :
    let moments := (Store.ofKeyspace registry keyspace).trace operations
    (∀ key q, Client.Agree (fun found n => n = (found.map fun row => row.cells.length).getD 0)
      (h.get? key q s) (h.getCount key q s)) ∧
    (∀ keys q size, 1 ≤ size →
      let counts : Client Cluster (List (Value × Nat)) :=
        keys.mapM fun key => do return (key, ← h.getCount key q)
      (∀ packed, h.Packs keys q packed →
        Client.Agree (fun a b => a = b) ((h.sized size).multigetCount keys q s) (counts s)) ∧
      ((¬∃ packed, h.Packs keys q packed) →
        (∃ e, (h.sized size).multigetCount keys q s = .error e s) ∧
        (keys ≠ [] → ∃ e s', counts s = .error e s'))) ∧
    ∀ key q row s', h.get key q s = .ok row s' → ∀ name inner, .super name inner ∈ row.cells →
      (∃ packed, h.StoresSuper s.2.store key packed (.super name inner)) ∧
      ∀ packed, h.StoresSuper s.2.store key packed (.super name inner) →
        h.packSuperName name = .ok packed → inner ≠ [] →
        (∀ t, s.2.store.table h.name = .ok t → t.holdsCounters = true →
          ∀ superColumn ∈ countedNames moments h.name, t.comparator.Accepts superColumn) →
        ∀ q' : SliceQuery, q'.Unbounded → inner.length ≤ limitOf q'.count →
          ∃ s'', h.getSuper key name q' s =
            .ok (.super name (if q'.reversed then inner.reverse else inner)) s'' := by
  intro moments
  refine ⟨fun key q => get?_agrees_getCount hserving hreadable, fun keys q size hsize => ?_,
    fun key q row s' hget name inner hmem => ?_⟩
  · -- in pieces of any size, each key is counted as on its own
    refine ⟨fun packed hpacks => ?_, fun hrefused => ?_⟩
    · exact multigetCount_agrees_getCount hserving hsize hpacks
    · exact ⟨@Handle.multigetCount_of_refused (h.sized size) q keys hrefused s,
        fun hkeys => Handle.mapM_getCount_of_refused hrefused hkeys s⟩
  · refine ⟨Handle.exists_storesSuper hget hmem, ?_⟩
    intro packed hstores hname hinner hcounted q' hq' hcount
    -- The super columns of increments decode, so names are in order and the search finds them.
    have hwell : ∀ t, s.2.store.table h.name = .ok t → t.WellFormed := by
      intro t ht
      refine Store.wellFormed_of_countedNames (hreached ▸ ht) fun hcounters => ?_
      exact hcounted t ht hcounters
    exact hstores.getSuper hserving hwell hname hq' hinner hcount

end Main

/-! ## Runs -/

theorem Cell.eq_super {cell : Cell} (hcells : cell.cells ≠ []) :
    cell = .super cell.name cell.cells := by
  cases cell with
  | super name cells => rfl
  | _ => exact absurd rfl hcells

/-- In a row whose names all pack back, the name of a super column packs to what it is stored
under. -/
theorem Handle.StoresSuper.packSuperName {h : Handle} {store : Store} {key name : Value}
    {inner : List Cell} {packed packedKey : Bytes} {supers : Sorted Bytes Store.Leaves}
    (hstores : h.StoresSuper store key packed (.super name inner))
    (hkey : h.packKey key = .ok packedKey)
    (hrow : store.row? h.name packedKey = some (.grouped supers))
    (hpacks : ∀ e ∈ supers,
      (liftMarshal ((h.schema.sliceType false).unpack e.1) >>= h.packSuperName) = .ok e.1) :
    h.packSuperName name = .ok packed := by
  obtain ⟨t, packedKey', supers', leaves, ht, hkey', hrow', hmem, hcell⟩ := hstores
  obtain rfl := Except.ok.inj (hkey'.symm.trans hkey)
  rw [Store.row?, ht] at hrow
  cases hrow'.symm.trans hrow
  -- The name was read from the packed bytes, and packing it gives them back.
  have hback := hpacks _ hmem
  rw [liftMarshal_eq_ok.2 (name_of_superEntry hcell).1] at hback
  exact hback

/-- A row shows one super column of one counter. It is counted, also twice in pieces of one key, and
found by its name. -/
theorem reads_agree_wiki :
    let h := wikiVisits.handle
    let s := servedRun wiki wikiRun
    let key : Value := .bytes [107]
    ∃ row s' inner, h.get key .default s = .ok row s' ∧ row.cells = [.super (.long 5) inner] ∧
      (∃ s'', h.getCount key .default s = .ok 1 s'') ∧
      Client.Agree (fun a b => a = b) ((h.sized 1).multigetCount [key, key] .default s)
        (([key, key].mapM fun key => do return (key, ← h.getCount key .default)) s) ∧
      ∃ s'', h.getSuper key (.long 5) .default s = .ok (.super (.long 5) inner) s'' := by
  intro h s key
  have hreadable : h.Readable s.2.store := by decide +kernel
  obtain ⟨hcount, hcounts, hsupers⟩ := @reads_agree .standard wiki wikiRun h s
    (serving_servedRun (by decide) wikiRun) rfl hreadable
  obtain ⟨row, s', hget, hcells⟩ := @Client.exists_of_answersWith _ _ s (h.get key .default)
    (fun row _ => row.cells.map (fun c => (c.name, c.cells.length)) == [(.long 5, 1)])
    (by decide +kernel)
  -- The row shows a single cell, and there is a cell inside it.
  obtain ⟨cell, hcell, hlength⟩ := List.map_eq_singleton_iff.1 (beq_iff_eq.1 hcells)
  obtain ⟨hname, hlength⟩ := Prod.mk.inj hlength
  have hinner : cell.cells ≠ [] := List.ne_nil_of_length_eq_add_one hlength
  rw [Cell.eq_super hinner, hname] at hcell
  refine ⟨row, s', cell.cells, hget, hcell, ?_, ?_, ?_⟩
  · have hagree := hcount key .default
    rw [Handle.get_eq_ok.1 hget] at hagree
    cases hn : h.getCount key .default s with
    | error e s'' =>
      rw [hn] at hagree
      exact hagree.elim
    | ok n s'' =>
      rw [hn] at hagree
      obtain rfl : n = row.cells.length := hagree
      rw [hcell]
      exact ⟨s'', rfl⟩
  · have hpacks : h.Packs [key, key] .default [[107], [107]] :=
      ⟨by decide +kernel, ⟨⟨"visits", none⟩, by decide +kernel⟩, .full 100, by decide +kernel⟩
    exact (hcounts [key, key] .default 1 (Nat.le_refl 1)).1 _ hpacks
  · obtain ⟨⟨packed, hstores⟩, hfound⟩ :=
      hsupers key .default row s' hget (.long 5) cell.cells (hcell ▸ List.mem_singleton_self _)
    have hrow : s.2.store.row? "visits" [107] =
        some (.grouped [([0, 0, 0, 0, 0, 0, 0, 5], [([97], .counter 2)])]) := by
      decide +kernel
    have hpacked : h.packSuperName (.long 5) = .ok packed :=
      hstores.packSuperName (by decide +kernel) hrow (by decide +kernel)
    have htype : Store.Table.comparator <$> s.2.store.table h.name = .ok .long := by
      decide +kernel
    have hnames : Store.countedNames ((Store.ofKeyspace .standard wiki).trace wikiRun) h.name =
        [[0, 0, 0, 0, 0, 0, 0, 5]] := by
      decide +kernel
    refine hfound packed hstores hpacked hinner (fun t ht _ => ?_) .default ⟨rfl, rfl, rfl⟩ ?_
    · rw [ht] at htype
      rw [hnames, List.forall_mem_singleton, Except.ok.inj htype]
      exact isOk_iff.1 (by decide +kernel)
    · rw [hlength]
      decide

/-- Readers who are counted. One who is no UUID comes in between, and is removed again. -/
def missedReaders : List Store.Operation :=
  [reader 0 4, [128], reader 254 1].map (fun name => .add [107] ⟨"readers", some name⟩ ⟨[97], 1⟩) ++
    [.remove [107] ⟨"readers", some [128], some [97]⟩ none]

/-- The name that is no UUID has left two readers in a wrong order. Both are UUIDs that pack to the
bytes they are stored under and are shown with the row, but the search for the first one misses
it. -/
theorem super_column_not_found :
    let h := wikiReaders.handle
    let key : Value := .bytes [107]
    let s := servedRun ((KeyspaceDef.ofName "wiki").withTable wikiReaders) missedReaders
    Serving s ∧ h.Readable s.2.store ∧ ∃ row s' name packed inner,
    h.get key .default s = .ok row s' ∧
      .super name inner ∈ row.cells ∧ h.StoresSuper s.2.store key packed (.super name inner) ∧
      h.packSuperName name = .ok packed ∧ inner ≠ [] ∧ SliceQuery.default.Unbounded ∧
      inner.length ≤ limitOf SliceQuery.default.count ∧
      ∀ cell s'', h.getSuper key name .default s ≠ .ok cell s'' := by
  intro h key s
  let name : Value := .uuid ⟨reader 0 4, rfl⟩
  obtain ⟨row, s', hget, hcells⟩ := @Client.exists_of_answersWith _ _ s (h.get key .default)
    (fun row _ => row.cells.any fun c => c.name == name && c.cells.length == 1) (by decide +kernel)
  obtain ⟨cell, hmem, hcell⟩ := List.any_eq_true.1 hcells
  rw [Bool.and_eq_true, beq_iff_eq, beq_iff_eq] at hcell
  obtain ⟨hname, hlength⟩ := hcell
  have hinner : cell.cells ≠ [] := List.ne_nil_of_length_eq_add_one hlength
  rw [Cell.eq_super hinner, hname] at hmem
  obtain ⟨packed, hstores⟩ := Handle.exists_storesSuper hget hmem
  -- The super columns are out of order, because one that does not decode stood between them.
  have hrow : s.2.store.row? "readers" [107] =
      some
        (.grouped [(reader 0 4, [([97], .counter 1)]), (reader 254 1, [([97], .counter 1)])]) := by
    decide +kernel
  -- So the search misses the one that a read of the row shows.
  have hmissed : (h.getSuper key name .default).answersWith s (fun _ _ => true) = false := by
    decide +kernel
  refine ⟨serving_servedRun (by decide) missedReaders, by decide +kernel, row, s', name, packed,
    cell.cells, hget, hmem, hstores, ?_, hinner, ⟨rfl, rfl, rfl⟩, ?_, fun cell s'' hfound => ?_⟩
  · exact hstores.packSuperName (by decide +kernel) hrow (by decide +kernel)
  · rw [hlength]
    decide
  · rw [Client.answersWith, hfound] at hmissed
    cases hmissed

end WideColumn
