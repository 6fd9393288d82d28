import Mathlib.Data.List.ReduceOption
import WideColumn.Handle.Read
import WideColumn.Handle.Scan
import WideColumn.Proofs.Cursor.Pages
import WideColumn.Proofs.Pool.Client
import WideColumn.Proofs.Pool.Serving
import WideColumn.Proofs.Query.Selection
import WideColumn.Proofs.Sorted.Lookup
import WideColumn.Proofs.Store.Representation

/-!
# Scans over a key range

A scan over a range of keys answers what reads of the single rows in the range answer, whatever the
size of its pages.

- `Handle.Decodes`: a stored row whose key and cells unpack under the types of a handle;
- `rangeSlices_eq_page`: the store pages through the rows of the range;
- `Scan.drain`: all rows of a scan;
- `scanRange_eq_reads`: they are those of the single reads that find a column.
-/

namespace WideColumn

/-! ## Reading single rows -/

/-- Reads the row of a packed key, if any column matches. -/
def Handle.readRow {ω : Type} [Network ω] (h : Handle) (parent : ColumnParent)
    (predicate : SlicePredicate) (level : Consistency) (key : Bytes) : Client ω (Option Row) := do
  let entries ← Client.call (.getSlice key parent predicate level)
  if entries.isEmpty then return none
  return some (← Client.ofExcept (h.decodeRow ⟨key, entries⟩))

/-! ## Rows that decode -/

/-- Stored leaves that unpack under the types of a handle. -/
def Handle.DecodesLeaves (h : Handle) (leaves : Store.Leaves) : Prop :=
  ∀ e ∈ leaves, ∃ cell, h.decodeEntry (e.2.toEntry e.1) = .ok cell

/-- A stored row whose cells unpack under the types of a handle. -/
def Handle.DecodesCells (h : Handle) : Store.RowData → Prop
  | .flat leaves => h.DecodesLeaves leaves
  | .grouped supers => ∀ e ∈ supers,
    (∃ v, liftMarshal ((h.schema.sliceType false).unpack e.1) = .ok v) ∧ h.DecodesLeaves e.2

/-- A stored row whose key and cells unpack under the types of a handle. -/
def Handle.Decodes (h : Handle) (key : Bytes) (row : Store.RowData) : Prop :=
  (∃ v, h.unpackKey key = .ok v) ∧ h.DecodesCells row

section Decoding

variable {h : Handle} {t : Store.Table}

theorem Handle.DecodesLeaves.entries {leaves : Store.Leaves} (hleaves : h.DecodesLeaves leaves)
    {order : Bytes → Bytes → Ordering} {predicate : SlicePredicate} {entry : Entry}
    (hentry : entry ∈ Store.Leaves.toEntries (Store.select order predicate leaves)) :
    ∃ cell, h.decodeEntry entry = .ok cell := by
  obtain ⟨e, he, rfl⟩ := List.mem_map.1 hentry
  exact hleaves e (mem_of_mem_select he)

theorem Handle.DecodesLeaves.columns {leaves : Store.Leaves} (hleaves : h.DecodesLeaves leaves) :
    ∃ cells, leaves.columns.mapM h.decodeColumn = .ok cells := by
  refine exists_mapM_eq_ok fun c hc => ?_
  obtain ⟨⟨name, leaf⟩, he, hleaf⟩ := List.mem_filterMap.1 hc
  obtain ⟨cell, hcell⟩ := hleaves _ he
  cases leaf with
  | cell value timestamp ttl =>
    cases hleaf
    exact ⟨cell, hcell⟩
  | counter value => cases hleaf

theorem Handle.DecodesLeaves.counters {leaves : Store.Leaves} (hleaves : h.DecodesLeaves leaves) :
    ∃ cells, leaves.counters.mapM h.decodeCounter = .ok cells := by
  refine exists_mapM_eq_ok fun c hc => ?_
  obtain ⟨⟨name, leaf⟩, he, hleaf⟩ := List.mem_filterMap.1 hc
  obtain ⟨cell, hcell⟩ := hleaves _ he
  cases leaf with
  | cell value timestamp ttl => cases hleaf
  | counter value =>
    cases hleaf
    exact ⟨cell, hcell⟩

/-- A super column decodes if its name and what is inside do. -/
theorem Handle.DecodesLeaves.superEntry {leaves : Store.Leaves} (hleaves : h.DecodesLeaves leaves)
    {name : Bytes} (hname : ∃ v, liftMarshal ((h.schema.sliceType false).unpack name) = .ok v) :
    ∃ cell, h.decodeEntry (t.superEntry name leaves) = .ok cell := by
  obtain ⟨v, hv⟩ := hname
  rw [Store.Table.superEntry]
  split
  · obtain ⟨cells, hcells⟩ := hleaves.counters
    refine ⟨.super v cells, ?_⟩
    simp only [Handle.decodeEntry, bind_eq_ok, pure_eq_ok]
    exact ⟨v, hv, cells, hcells, rfl⟩
  · obtain ⟨cells, hcells⟩ := hleaves.columns
    refine ⟨.super v cells, ?_⟩
    simp only [Handle.decodeEntry, bind_eq_ok, pure_eq_ok]
    exact ⟨v, hv, cells, hcells, rfl⟩

/-- Whatever a read selects of cells that decode, it decodes. -/
theorem Handle.DecodesCells.decode {row : Store.RowData} (hrow : h.DecodesCells row)
    (superColumn : Option Bytes) (predicate : SlicePredicate) :
    ∃ cells, h.decode (t.slice row superColumn predicate) = .ok cells := by
  refine exists_mapM_eq_ok fun entry hentry => ?_
  -- What a slice lists is taken from the row, where everything decodes.
  cases row with
  | flat leaves => exact Handle.DecodesLeaves.entries hrow hentry
  | grouped supers =>
    cases superColumn with
    | none =>
      obtain ⟨e, he, rfl⟩ := List.mem_map.1 hentry
      obtain ⟨hname, hcells⟩ := hrow e (mem_of_mem_select he)
      exact hcells.superEntry hname
    | some superColumn =>
      simp only [Store.Table.slice] at hentry
      split at hentry
      · next leaves hfind =>
        obtain ⟨name, hmem⟩ := Sorted.mem_of_find? hfind
        exact (hrow _ hmem).2.entries hentry
      · cases hentry

/-- Whatever a read selects of a row that decodes, it decodes. -/
theorem Handle.Decodes.decodeRow {key : Bytes} {row : Store.RowData} (hrow : h.Decodes key row)
    (superColumn : Option Bytes) (predicate : SlicePredicate) :
    ∃ r, h.decodeRow ⟨key, t.slice row superColumn predicate⟩ = .ok r := by
  obtain ⟨cells, hcells⟩ := @Handle.DecodesCells.decode h t row hrow.2 superColumn predicate
  obtain ⟨v, hkey⟩ := hrow.1
  refine ⟨⟨v, cells⟩, ?_⟩
  simp only [Handle.decodeRow, bind_eq_ok, pure_eq_ok]
  exact ⟨v, hkey, cells, hcells, rfl⟩

end Decoding

/-! ## Pages of the store -/

namespace Store

/-- Every key is from the empty key on. -/
theorem compare_nil_ne_lt (key : Bytes) : compare key [] ≠ .lt := by
  cases key <;> nofun

theorem keyWithin_iff {start finish key : Bytes} :
    keyWithin start finish key = true ↔
      compare key start ≠ .lt ∧ (finish = [] ∨ compare key finish ≠ .gt) := by
  have hstart : start = [] → compare key start ≠ .lt := fun h => h ▸ compare_nil_ne_lt key
  simp only [keyWithin, Bool.and_eq_true, Bool.or_eq_true, List.isEmpty_iff, bne_iff_ne]
  constructor
  · exact fun ⟨hlow, hhigh⟩ => ⟨hlow.elim hstart id, hhigh⟩
  · exact fun ⟨hlow, hhigh⟩ => ⟨.inr hlow, hhigh⟩

/-- The rows of a key range as a read of each of them selects its entries. -/
def Table.between (t : Table) (parent : ColumnParent) (predicate : SlicePredicate)
    (start finish : Bytes) : List RowSlice :=
  (t.rows.filter fun e => keyWithin start finish e.1).map fun e =>
    ⟨e.1, t.slice e.2 parent.superColumn predicate⟩

theorem limitOf_countWord {n : Nat} (h : n ≤ maxCount.toInt.toNat) : limitOf (countWord n) = n := by
  have hmax : maxCount.toInt.toNat = 2 ^ 31 - 1 := by decide
  rw [countWord, Nat.min_eq_left h, limitOf, Int32.toInt_ofNat_of_lt (by omega), Int.toNat_natCast]

/-- From the start of a key range, or from the key of one of its rows, the store answers a page of
the rows in the range. -/
theorem rangeSlices_eq_page {s : Store} {t : Table} {parent : ColumnParent}
    {predicate : SlicePredicate} {start finish key : Bytes} {count : Nat}
    (ht : s.table parent.table = .ok t) (hparent : t.checkParent parent.superColumn = .ok ())
    (hrange : start = [] ∨ finish = [] ∨ compare start finish ≠ .gt)
    (hkey : key = start ∨ ∃ row ∈ t.between parent predicate start finish, row.key = key)
    (hcount : count ≤ maxCount.toInt.toNat) :
    s.rangeSlices parent predicate ⟨key, finish, countWord count⟩ =
      .ok (Cursor.Source.page (t.between parent predicate start finish) key count) := by
  -- The key lies in the range itself.
  obtain ⟨hlow, hhigh⟩ : compare key start ≠ .lt ∧
      (key = [] ∨ finish = [] ∨ compare key finish ≠ .gt) := by
    rcases hkey with rfl | ⟨row, hrow, rfl⟩
    · exact ⟨by simp, hrange⟩
    · obtain ⟨e, he, rfl⟩ := List.mem_map.1 hrow
      obtain ⟨hlow, hhigh⟩ := keyWithin_iff.1 (List.mem_filter.1 he).2
      exact ⟨hlow, .inr hhigh⟩
  have haccepted : ¬(!key.isEmpty && !finish.isEmpty && compare key finish == .gt) = true := by
    rcases hhigh with rfl | rfl | hle
    · simp
    · simp
    · simp [hle]
  have hsame : ∀ e ∈ t.rows, keyWithin key finish e.1 =
      (compare e.1 key != .lt && keyWithin start finish e.1) := by
    intro e _
    rw [Bool.eq_iff_iff, Bool.and_eq_true, bne_iff_ne, keyWithin_iff, keyWithin_iff]
    constructor
    · exact fun ⟨hkey, hfinish⟩ => ⟨hkey, Cursor.ne_lt_trans hkey hlow, hfinish⟩
    · exact fun ⟨hkey, _, hfinish⟩ => ⟨hkey, hfinish⟩
  simp only [rangeSlices, ht, hparent, ok_bind]
  rw [if_neg haccepted, limitOf_countWord hcount, List.filter_congr hsame, ← List.filter_filter]
  rw [Cursor.Source.page, Table.between, List.filter_map, List.map_take]
  rfl

end Store

/-! ## Serving reads -/

section Reads

variable {s : Pool × Cluster} {t : Store.Table} {parent : ColumnParent} {predicate : SlicePredicate}

/-- The store pages through the rows of a key range. -/
theorem pages_range {store : Store} {start finish : Bytes} (level : Consistency)
    (ht : store.table parent.table = .ok t) (hparent : t.checkParent parent.superColumn = .ok ())
    (hrange : start = [] ∨ finish = [] ∨ compare start finish ≠ .gt) :
    Cursor.Pages (ScanSource.range parent predicate finish level).fetch
      (t.between parent predicate start finish) start maxCount.toInt.toNat (ServingFrom store) where
  fetch hs hkey hcount := by
    have hslices := Store.rangeSlices_eq_page ht hparent hrange hkey hcount
    refine hs.call ?_
    simp only [Store.serve, Cluster.serve, hslices]
    rfl

/-- What a slice of a row is read as: nothing without entries. -/
def Handle.found (h : Handle) (r : RowSlice) : Option Row :=
  if r.entries.isEmpty then none else (h.decodeRow r).toOption

/-- A read of one row answers what a scan has for the row. -/
theorem readRow_eq {h : Handle} {store : Store} {level : Consistency} {key : Bytes}
    {row : Store.RowData} (hs : ServingFrom store s) (ht : store.table parent.table = .ok t)
    (hparent : t.checkParent parent.superColumn = .ok ()) (hrow : t.row? key = some row)
    (hdecodes : h.Decodes key row) :
    ∃ s', ServingFrom store s' ∧ h.readRow parent predicate level key s =
      .ok (h.found ⟨key, t.slice row parent.superColumn predicate⟩) s' := by
  have hread : store.serve (.getSlice key parent predicate level) =
      (.ok (t.slice row parent.superColumn predicate), store) := by
    have hslice : store.slice key parent predicate =
        .ok (t.slice row parent.superColumn predicate) := by
      simp only [Store.slice, ht, hparent, hrow, ok_bind]
      rfl
    simp only [Store.serve, Cluster.serve, hslice]
    rfl
  obtain ⟨s', hs', hcall⟩ := hs.call hread
  refine ⟨s', hs', ?_⟩
  obtain ⟨r, hr⟩ := hdecodes.decodeRow (t := t) parent.superColumn predicate
  rw [Handle.readRow, Client.bind_of_ok hcall, Handle.found]
  -- Nothing is found if the slice is empty, and otherwise its cells.
  by_cases hnone : (t.slice row parent.superColumn predicate).isEmpty = true
  · rw [if_pos hnone, if_pos hnone]
    rfl
  · rw [if_neg hnone, if_neg hnone, Client.bind_of_ok (Client.ofExcept_eq_ok.2 ⟨hr, rfl⟩), hr]
    rfl

end Reads

/-! ## Draining a scan -/

/-- Calls `next` until the scan is over, at most `calls` times, and answers the rows. A failure or a
used-up budget of pages gives no answer. -/
def Scan.drain {ω : Type} [Network ω] (budget : Nat) :
    Nat → Scan → Pool × ω → Option (List Row × Scan × (Pool × ω))
  | 0, _, _ => none
  | calls + 1, scan, s =>
    match scan.next budget s with
    | (.finished, scan, s) => some ([], scan, s)
    | (.row row, scan, s) => (drain budget calls scan s).map fun (rows, scan, s) =>
      (row :: rows, scan, s)
    | (.failure _, _, _) | (.paused, _, _) => none

/-- A scan hands out what its cursor does, decoded. -/
theorem Scan.drain_of_cursor {ω : Type} [Network ω] {h : Handle} {source : ScanSource}
    {decoded : RowSlice → Row} {budget calls : Nat} :
    ∀ {c c' : Cursor} {s s' : Pool × ω} {out : List RowSlice},
      c.drain source.fetch budget calls s = some (out, c', s') →
      (∀ r ∈ out, h.decodeRow r = .ok (decoded r)) →
      Scan.drain budget calls ⟨h, source, c⟩ s = some (out.map decoded, ⟨h, source, c'⟩, s') := by
  -- By induction on the calls: the scan decodes each row that the cursor hands out.
  induction calls with
  | zero =>
    intro c c' s s' out hdrain _
    cases hdrain
  | succ calls ih =>
    intro c c' s s' out hdrain hdecoded
    rw [Cursor.drain] at hdrain
    rw [Scan.drain, Scan.next]
    rcases hnext : c.next source.fetch budget s with ⟨answer, c₁, s₁⟩
    rw [hnext] at hdrain
    cases answer with
    | finished =>
      cases hdrain
      rfl
    | row row =>
      obtain ⟨⟨rest, c₂, s₂⟩, hrest, hout⟩ := Option.map_eq_some_iff.1 hdrain
      cases hout
      have hscan := ih hrest fun r hr => hdecoded r (List.mem_cons_of_mem _ hr)
      simp only [hdecoded row List.mem_cons_self, hscan]
      rfl
    | failure e => cases hdrain
    | paused => cases hdrain

/-! ## Main result -/

section Range

variable {h : Handle} {q : RangeQuery} {start finish : Bytes} {parent : ColumnParent}
  {predicate : SlicePredicate}

/-- A scan begins if its range and its columns can be packed and its pages are large enough. -/
theorem scanRange_eq_ok (hstart : h.packKeyEnd q.start = .ok start)
    (hfinish : h.packKeyEnd q.finish = .ok finish)
    (hparent : h.parent q.slice.superColumn = .ok parent)
    (hpredicate : h.predicate q.slice = .ok predicate)
    (hbuffer : 2 ≤ q.bufferSize.getD h.options.bufferSize) :
    h.scanRange q = .ok ⟨h, .range parent predicate finish (h.readLevel q.slice),
      .unfetched start (q.bufferSize.getD h.options.bufferSize) q.limit⟩ := by
  simp only [Handle.scanRange, hstart, hfinish, hparent, hpredicate, Cursor.ofStart_eq_ok hbuffer,
    ok_bind]
  rfl

/-- A parent names the table of its handle, and a super column only if the handle has any. -/
theorem checkParent_of_parent {t : Store.Table} {superColumn : Option Value}
    (hsuper : h.schema.superType.isSome = true → t.isSuper = true)
    (hparent : h.parent superColumn = .ok parent) :
    parent.table = h.name ∧ t.checkParent parent.superColumn = .ok () := by
  simp only [Handle.parent, bind_eq_ok, pure_eq_ok] at hparent
  obtain ⟨packed, hpacked, rfl⟩ := hparent
  refine ⟨rfl, Store.Table.checkParent_eq_ok.2 fun hsome => hsuper ?_⟩
  -- A handle that packs a super column has a type for it.
  cases superColumn with
  | none =>
    cases hpacked
    cases hsome
  | some superColumn =>
    simp only [Handle.packSuperColumn, Handle.packSuperName, map_eq_ok] at hpacked
    obtain ⟨name, hname, -⟩ := hpacked
    cases htype : h.schema.superType with
    | some superType => rfl
    | none =>
      rw [htype] at hname
      cases hname

section Rows

variable {t : Store.Table}

theorem sortedByKey_between (hrows : t.rows.Increasing compare) :
    Cursor.SortedByKey (t.between parent predicate start finish) :=
  List.pairwise_map.2 (hrows.sublist List.filter_sublist)

/-- The keys of the rows in a range. -/
theorem map_key_between : (t.between parent predicate start finish).map (fun r => r.key) =
    (t.rows.map fun e => e.1).filter fun key =>
      compare key start ≠ .lt ∧ (finish = [] ∨ compare key finish ≠ .gt) := by
  rw [Store.Table.between, List.map_map, List.filter_map]
  congr 1
  apply List.filter_congr
  intro e _
  rw [Bool.eq_iff_iff, Store.keyWithin_iff]
  simp

/-- A cursor at the start of a range has all its rows ahead. -/
theorem filter_start_between :
    ((t.between parent predicate start finish).filter fun r => compare r.key start != .lt) =
      t.between parent predicate start finish := by
  rw [List.filter_eq_self]
  intro r hr
  obtain ⟨e, he, rfl⟩ := List.mem_map.1 hr
  rw [bne_iff_ne]
  exact (Store.keyWithin_iff.1 (List.mem_filter.1 he).2).1

/-- Reads of the single rows in a range, one after the other. -/
theorem mapM_readRow {s : Pool × Cluster} {store : Store} (hs : ServingFrom store s)
    (level : Consistency) (ht : store.table parent.table = .ok t)
    (hparent : t.checkParent parent.superColumn = .ok ()) (hrows : t.rows.Increasing compare)
    (hdecodes : ∀ e ∈ t.rows, h.Decodes e.1 e.2) :
    ∃ s', ServingFrom store s' ∧
      ((t.between parent predicate start finish).map fun r => r.key).mapM
        (h.readRow parent predicate level) s =
          .ok ((t.between parent predicate start finish).map h.found) s' := by
  -- what is read under a key
  let read (key : Bytes) : Option Row :=
    (t.row? key).bind fun row => h.found ⟨key, t.slice row parent.superColumn predicate⟩
  have hrow : ∀ e ∈ t.rows, t.row? e.1 = some e.2 := by
    intro e he
    rw [Store.Table.row?, hrows.find?_eq_lookup]
    exact hrows.lookup_eq_some_iff.2 he
  have hread : ∀ key ∈ (t.between parent predicate start finish).map fun r => r.key,
      ∀ s, ServingFrom store s →
        ∃ s', ServingFrom store s' ∧ h.readRow parent predicate level key s =
        .ok (read key) s' := by
    intro key hkey s hs
    obtain ⟨r, hr, rfl⟩ := List.mem_map.1 hkey
    obtain ⟨e, he, rfl⟩ := List.mem_map.1 hr
    have he := List.mem_of_mem_filter he
    obtain ⟨s', hs', hanswer⟩ := readRow_eq hs ht hparent (hrow e he) (hdecodes e he)
    refine ⟨s', hs', hanswer.trans ?_⟩
    simp only [read, hrow e he, Option.bind_some]
  obtain ⟨s', hs', hanswer⟩ := Client.mapM_of_keeps hread hs
  refine ⟨s', hs', hanswer.trans ?_⟩
  rw [List.map_map]
  congr 1
  refine List.map_congr_left fun r hr => ?_
  obtain ⟨e, he, rfl⟩ := List.mem_map.1 hr
  simp only [Function.comp, read, hrow e (List.mem_of_mem_filter he), Option.bind_some]

/-- The rows in a range decode, and those with entries are the rows that are found. -/
theorem exists_decoded (hdecodes : ∀ e ∈ t.rows, h.Decodes e.1 e.2) :
    ∃ decoded : RowSlice → Row,
      (∀ r ∈ t.between parent predicate start finish, h.decodeRow r = .ok (decoded r)) ∧
      ((t.between parent predicate start finish).map h.found).reduceOption =
        ((t.between parent predicate start finish).filter fun r => !r.entries.isEmpty).map
          decoded := by
  let decoded (r : RowSlice) : Row := (h.decodeRow r).toOption.getD ⟨.long 0, []⟩
  have hdecoded : ∀ r ∈ t.between parent predicate start finish,
      h.decodeRow r = .ok (decoded r) := by
    intro r hr
    obtain ⟨e, he, rfl⟩ := List.mem_map.1 hr
    obtain ⟨row, hrow⟩ := (hdecodes e (List.mem_of_mem_filter he)).decodeRow (t := t)
      parent.superColumn predicate
    simp only [decoded, hrow]
    rfl
  refine ⟨decoded, hdecoded, ?_⟩
  -- A row is found exactly if its slice has entries.
  rw [List.reduceOption, List.filterMap_map, ← List.filterMap_eq_map, List.filterMap_filter]
  refine List.filterMap_congr fun r hr => ?_
  simp only [Function.comp, id, Handle.found, hdecoded r hr]
  cases r.entries.isEmpty <;> rfl

end Rows

/-- Draining a scan over a range of keys answers, in the order of the packed keys, the first rows,
as many as the limit allows, of those that reads of the single stored rows in the range find, each
as such a read answers it. The size of the pages makes no difference. -/
theorem scanRange_eq_reads {s : Pool × Cluster} {t : Store.Table}
    (hserving : Serving s) (ht : s.2.store.table h.name = .ok t) (hrows : t.rows.Increasing compare)
    (hdecodes : ∀ e ∈ t.rows, h.Decodes e.1 e.2)
    (hsuper : h.schema.superType.isSome = true → t.isSuper = true)
    (hstart : h.packKeyEnd q.start = .ok start) (hfinish : h.packKeyEnd q.finish = .ok finish)
    (hrange : start = [] ∨ finish = [] ∨ compare start finish ≠ .gt)
    (hparent : h.parent q.slice.superColumn = .ok parent)
    (hpredicate : h.predicate q.slice = .ok predicate)
    (hbuffer : 2 ≤ q.bufferSize.getD h.options.bufferSize)
    (hmost : q.bufferSize.getD h.options.bufferSize ≤ maxCount.toInt.toNat) :
    ∃ scan found s', h.scanRange q = .ok scan ∧
      ((t.rows.map fun e => e.1).filter fun key =>
          compare key start ≠ .lt ∧ (finish = [] ∨ compare key finish ≠ .gt)).mapM
        (h.readRow parent predicate (h.readLevel q.slice)) s = .ok found s' ∧
      ∀ budget calls, t.rows.length < budget → t.rows.length < calls → ∃ scan' s'',
        scan.drain budget calls s =
        some (Cursor.atMost q.limit found.reduceOption, scan', s'') := by
  obtain ⟨htable, hcheck⟩ := checkParent_of_parent hsuper hparent
  have ht' : s.2.store.table parent.table = .ok t := by rw [htable, ht]
  have hs : ServingFrom s.2.store s := ⟨hserving, rfl⟩
  -- On the one side each key of the range is read on its own.
  obtain ⟨s', -, hreads⟩ : ∃ s', ServingFrom s.2.store s' ∧
      ((t.between parent predicate start finish).map fun r => r.key).mapM
        (h.readRow parent predicate (h.readLevel q.slice)) s =
          .ok ((t.between parent predicate start finish).map h.found) s' :=
    mapM_readRow hs (h.readLevel q.slice) ht' hcheck hrows hdecodes
  rw [map_key_between] at hreads
  refine ⟨_, _, s', scanRange_eq_ok hstart hfinish hparent hpredicate hbuffer, hreads, ?_⟩
  intro budget calls hbudget hcalls
  -- On the other side a cursor drains the pages of the range, which has no more rows than the
  -- table.
  have hlength : (t.between parent predicate start finish).length ≤ t.rows.length := by
    rw [Store.Table.between, List.length_map]
    exact List.length_filter_le _ _
  obtain ⟨c', s'', -, hdrain⟩ :=
    (pages_range (h.readLevel q.slice) ht' hcheck hrange).drain_unfetched
    (sortedByKey_between hrows) filter_start_between hbuffer hmost q.limit hs
    (Nat.lt_of_le_of_lt hlength hbudget) (Nat.lt_of_le_of_lt hlength hcalls)
  -- Both sides decode the same slices.
  obtain ⟨decoded, hdecoded, hfound⟩ :
      ∃ decoded : RowSlice → Row,
        (∀ r ∈ t.between parent predicate start finish, h.decodeRow r = .ok (decoded r)) ∧ _ :=
    exists_decoded hdecodes
  have hscan := Scan.drain_of_cursor hdrain fun r hr =>
    hdecoded r (List.mem_of_mem_filter ((Cursor.atMost_sublist _ _).subset hr))
  rw [Cursor.map_atMost, ← hfound] at hscan
  exact ⟨_, s'', hscan⟩

end Range

/-- A keyspace with a table of texts. -/
def pages : TableDef :=
  { TableDef.ofName "web" "pages" with
    comparator := "UTF8Type", validation := "UTF8Type", keyValidation := "UTF8Type" }

/-- A handle of that table. -/
def pagesHandle : Handle := ⟨.ofDef .standard .default pages, .default⟩

/-- Four rows of which the second one is empty and the third one lacks the first column. -/
def fourPages : Store.Table :=
  { Store.Table.ofDef .standard pages with
    rows :=
    [([97], .flat [([120], .cell [49] 1 none), ([121], .cell [50] 1 none)]), ([98], .flat []),
      ([99], .flat [([121], .cell [51] 1 none)]), ([100], .flat [([120], .cell [52] 1 none)])] }

/-- A pool in front of a cluster that holds these rows. -/
def servedPages : Pool × Cluster :=
  (.ofConfig { PoolConfig.default with keyspace := "web" },
    { Cluster.ofKeyspace .standard ((KeyspaceDef.ofName "web").withTable pages) with
      store := ⟨(KeyspaceDef.ofName "web").withTable pages, [("pages", fourPages)]⟩ })

/-- The first column of each page from the first key on, two rows at a time. -/
def firstColumns : RangeQuery :=
  { start := some (.text "a"), finish := none, limit := none, bufferSize := some 2,
    slice := { SliceQuery.default with names := some [.text "x"] } }

theorem scanRange_eq_reads_firstColumns :
    ∃ scan found s', pagesHandle.scanRange firstColumns = .ok scan ∧
      [[97], [98], [99], [100]].mapM
        (pagesHandle.readRow ⟨"pages", none⟩ (.ofNames [[120]]) .one) servedPages = .ok found s' ∧
      found.map Option.isSome = [true, false, false, true] ∧
      ∃ scan' s'', scan.drain 5 5 servedPages = some (found.reduceOption, scan', s'') := by
  have hserving : Serving servedPages := by
    refine (Healthy.of_config ?_ ?_ ?_ ?_).serving
    · decide +kernel
    · exact fun _ _ => List.not_mem_nil
    · rfl
    · decide +kernel
  have hdecodes : ∀ e ∈ fourPages.rows, pagesHandle.Decodes e.1 e.2 := by
    intro e he
    simp only [fourPages, List.mem_cons, List.not_mem_nil, or_false] at he
    rcases he with rfl | rfl | rfl | rfl <;> refine ⟨isOk_iff.1 (by decide +kernel), ?_⟩ <;>
      intro leaf hleaf <;> refine isOk_iff.1 ?_ <;> revert leaf <;> decide +kernel
  have htable : servedPages.2.store.table pagesHandle.name = .ok fourPages := by
    have hinc : servedPages.2.store.tables.Increasing compare := List.pairwise_singleton _ _
    exact (Store.table_eq_ok_iff hinc).2 (List.mem_singleton.2 rfl)
  have hsuper : pagesHandle.schema.superType.isSome = true → fourPages.isSuper = true := by
    decide +kernel
  have hrows : Sorted.Increasing compare fourPages.rows := by
    show List.Pairwise _ _
    decide +kernel
  obtain ⟨scan, found, s', hscan, hreads, hdrain⟩ :=
    @scanRange_eq_reads pagesHandle firstColumns [97] [] ⟨"pages", none⟩ (.ofNames [[120]])
      servedPages fourPages hserving htable hrows hdecodes hsuper (by decide +kernel)
      (by decide +kernel) (.inr (.inl rfl)) (by decide +kernel) (by decide +kernel)
      (by decide +kernel) (by decide +kernel)
  -- the range takes in all four keys
  have hkeys : ((fourPages.rows.map fun e => e.1).filter fun key =>
      compare key [97] ≠ .lt ∧ (([] : Bytes) = [] ∨ compare key [] ≠ .gt)) =
        [[97], [98], [99], [100]] := by
    decide +kernel
  rw [hkeys] at hreads
  replace hreads : [[97], [98], [99], [100]].mapM
      (pagesHandle.readRow ⟨"pages", none⟩ (.ofNames [[120]]) .one) servedPages = .ok found s' :=
      hreads
  -- which of the reads found a column can be computed; the scan is drained to the same rows
  have hfound : (match [[97], [98], [99], [100]].mapM
      (pagesHandle.readRow ⟨"pages", none⟩ (.ofNames [[120]]) .one) servedPages with
      | .ok found _ => found.map Option.isSome
      | .error _ _ => []) = [true, false, false, true] := by
    decide +kernel
  rw [hreads] at hfound
  exact ⟨scan, found, s', hscan, hreads, hfound,
    hdrain 5 5 (Nat.lt_succ_self 4) (Nat.lt_succ_self 4)⟩

end WideColumn
