import WideColumn.Proofs.Handle.Scan
import WideColumn.Proofs.Store.Search

/-!
# Scans over the rows that satisfy conditions

A scan with conditions filters in the store, before rows are counted out into pages, while a scan
over a range pages through all rows. Both come to the same rows all the same: those of the range
that satisfy the conditions, whatever the sizes of the pages and whichever columns are read.

- `Store.Table.Meets`: a condition of a row in terms of its cells; `satisfies_iff`: it is what the
  store tests;
- `indexedSlices_eq_page`: the store pages through the rows that satisfy the conditions;
- `scanIndexed_eq_filtered`: the two scans.
-/

namespace WideColumn

/-! ## Conditions -/

namespace Store.Table

variable {t : Table}

/-- A row has a cell under the column of a condition, and its value stands to the value of the
condition as the condition says, in the order of the column's values. -/
def Meets (t : Table) (row : RowData) (e : IndexExpression) : Prop :=
  ∃ leaves name value timestamp ttl, row = .flat leaves ∧
    (name, Leaf.cell value timestamp ttl) ∈ leaves ∧ t.comparator.compare name e.column = .eq ∧
    e.op.holds ((t.validator e.column).compare value e.value) = true

/-- The store tests the conditions. It searches the leaves of a row for their columns. -/
theorem satisfies_iff {row : RowData} (hrow : RowData.WellFormed t row)
    (hstandard : t.isSuper = false) (expressions : List IndexExpression) :
    t.satisfies row expressions = true ↔ ∀ e ∈ expressions, t.Meets row e := by
  cases row with
  | grouped supers =>
    rw [hrow.1] at hstandard
    cases hstandard
  | flat leaves =>
    -- The search finds the leaf whose name compares equal, if there is one.
    have hfound : ∀ (e : IndexExpression) leaf, leaves.find? t.order e.column = some leaf ↔
        ∃ name, (name, leaf) ∈ leaves ∧ t.comparator.compare name e.column = .eq := fun e leaf =>
      Sorted.find?_eq_some_iff_of_names hrow.2.names hrow.2.increasing
    simp only [satisfies, List.all_eq_true]
    refine forall₂_congr fun e _ => ?_
    constructor
    · intro h
      split at h
      · next value timestamp ttl hfind =>
        obtain ⟨name, hmem, heq⟩ := (hfound e _).1 hfind
        exact ⟨leaves, name, value, timestamp, ttl, rfl, hmem, heq, h⟩
      · cases h
    · rintro ⟨_, name, value, timestamp, ttl, ⟨⟩, hmem, heq, hholds⟩
      simp only [(hfound e _).2 ⟨name, hmem, heq⟩, hholds]

/-- The rows from a start key on that satisfy conditions, as a read of each of them selects its
entries. -/
def satisfying (t : Table) (predicate : SlicePredicate) (expressions : List IndexExpression)
    (start : Bytes) : List RowSlice :=
  (t.rows.filter fun e => keyWithin start [] e.1 && t.satisfies e.2 expressions).map fun e =>
    ⟨e.1, t.slice e.2 none predicate⟩

end Store.Table

/-! ## Pages of the store -/

section Pages

variable {t : Store.Table} {parent : ColumnParent} {predicate : SlicePredicate}
  {expressions : List IndexExpression} {start key : Bytes} {count : Nat}

/-- A condition is on a column that the table has an index for. -/
def Store.Table.Indexes (t : Store.Table) (e : IndexExpression) : Prop :=
  ∃ c, t.definition.column? e.column = some c ∧ c.indexed = true

/-- From the start key, or from the key of a row that satisfies the conditions, the store answers a
page of the rows that do. -/
theorem Store.indexedSlices_eq_page {s : Store} (ht : s.table parent.table = .ok t)
    (hstandard : t.isSuper = false) (hindexed : ∃ e ∈ expressions, t.Indexes e)
    (hkey : key = start ∨ ∃ row ∈ t.satisfying predicate expressions start, row.key = key)
    (hcount : count ≤ maxCount.toInt.toNat) :
    s.indexedSlices parent ⟨expressions, key, countWord count⟩ predicate =
      .ok (Cursor.Source.page (t.satisfying predicate expressions start) key count) := by
  -- No page starts in front of the scan.
  have hlow : compare key start ≠ .lt := by
    rcases hkey with rfl | ⟨row, hrow, rfl⟩
    · simp
    · obtain ⟨e, he, rfl⟩ := List.mem_map.1 hrow
      have hwithin := (Bool.and_eq_true _ _ ▸ (List.mem_filter.1 he).2).1
      exact (keyWithin_iff.1 hwithin).1
  -- One of the conditions is on an indexed column, so the store accepts them.
  have haccepted : expressions.any (fun e =>
      ((t.definition.column? e.column).map (·.indexed)).getD false) = true := by
    obtain ⟨e, he, c, hc, hindex⟩ := hindexed
    refine List.any_eq_true.2 ⟨e, he, ?_⟩
    rw [hc]
    exact hindex
  -- The rows from the key on are those from the start on that are not passed yet.
  have hsame : ∀ e ∈ t.rows, (keyWithin key [] e.1 && t.satisfies e.2 expressions) =
      (compare e.1 key != .lt && (keyWithin start [] e.1 && t.satisfies e.2 expressions)) := by
    intro e _
    rw [← Bool.and_assoc]
    congr 1
    rw [Bool.eq_iff_iff, Bool.and_eq_true, bne_iff_ne, keyWithin_iff, keyWithin_iff]
    constructor
    · exact fun ⟨hkey, hfinish⟩ => ⟨hkey, Cursor.ne_lt_trans hkey hlow, hfinish⟩
    · exact fun ⟨hkey, _, hfinish⟩ => ⟨hkey, hfinish⟩
  simp only [indexedSlices, ht, ok_bind, hstandard, Bool.false_eq_true, if_false, haccepted,
    Bool.not_true]
  rw [limitOf_countWord hcount, List.filter_congr hsame, ← List.filter_filter]
  rw [Cursor.Source.page, Table.satisfying, List.filter_map, List.map_take]
  rfl

/-- The store pages through the rows that satisfy conditions. -/
theorem pages_indexed {store : Store} (level : Consistency) (ht : store.table parent.table = .ok t)
    (hstandard : t.isSuper = false) (hindexed : ∃ e ∈ expressions, t.Indexes e) :
    Cursor.Pages (ScanSource.indexed parent predicate expressions level).fetch
      (t.satisfying predicate expressions start)
      start maxCount.toInt.toNat (ServingFrom store) where
  fetch hs hkey hcount := by
    have hslices := Store.indexedSlices_eq_page ht hstandard hindexed hkey hcount
    refine hs.call ?_
    simp only [Store.serve, Cluster.serve, hslices]
    rfl

/-- The rows that satisfy conditions are some of those from the start key on. -/
theorem satisfying_eq_filter (hrows : t.rows.Increasing compare) {keep : Bytes → Bool}
    (hkeep : ∀ k row, t.row? k = some row → keep k = t.satisfies row expressions)
    (hparent : parent.superColumn = none) :
    t.satisfying predicate expressions start =
      (t.between parent predicate start []).filter fun r => keep r.key := by
  rw [Store.Table.between, List.filter_map, List.filter_filter, Store.Table.satisfying, hparent]
  congr 1
  refine List.filter_congr fun e he => ?_
  have hrow : t.row? e.1 = some e.2 := by
    rw [Store.Table.row?, hrows.find?_eq_lookup]
    exact hrows.lookup_eq_some_iff.2 he
  rw [Function.comp_apply, hkeep _ _ hrow, Bool.and_comm]

end Pages

/-! ## Draining -/

/-- A scan over a source that pages through fixed rows hands out those with entries, decoded, as
many as the limit allows. -/
theorem Scan.drain_of_pages {h : Handle} {source : ScanSource} {rows : List RowSlice}
    {start : Bytes} {most : Nat} {ok : Pool × Cluster → Prop}
    (hpages : Cursor.Pages source.fetch rows start most ok) (hsorted : Cursor.SortedByKey rows)
    (hstart : (rows.filter fun r => compare r.key start != .lt) = rows) {decoded : RowSlice → Row}
    (hdecoded : ∀ r ∈ rows, h.decodeRow r = .ok (decoded r)) {bufferSize : Nat}
    (hbuffer : 2 ≤ bufferSize) (hmost : bufferSize ≤ most) (limit : Option Nat) {s : Pool × Cluster}
    (hs : ok s) {budget calls : Nat} (hbudget : rows.length < budget)
    (hcalls : rows.length < calls) :
    ∃ scan s', Scan.drain budget calls ⟨h, source, .unfetched start bufferSize limit⟩ s =
      some (Cursor.atMost limit ((rows.filter fun r => !r.entries.isEmpty).map decoded),
        scan, s') := by
  obtain ⟨c', s', -, hdrain⟩ :=
    hpages.drain_unfetched hsorted hstart hbuffer hmost limit hs hbudget hcalls
  -- What the cursor hands out is decoded row by row.
  have hscan := Scan.drain_of_cursor hdrain fun r hr =>
    hdecoded r (List.mem_of_mem_filter ((Cursor.atMost_sublist _ _).subset hr))
  rw [Cursor.map_atMost] at hscan
  exact ⟨_, s', hscan⟩

/-! ## Main result -/

section Indexed

variable {h : Handle} {q : IndexQuery} {slice : SliceQuery} {start : Bytes}
  {predicate : SlicePredicate} {expressions : List IndexExpression}

/-- A scan begins if its conditions, its start and its columns can be packed and its pages are large
enough. -/
theorem scanIndexed_eq_ok (hconditions : q.conditions.mapM h.packCondition = .ok expressions)
    (hstart : h.packKeyEnd q.start = .ok start) (hpredicate : h.predicate slice = .ok predicate)
    (hbuffer : 2 ≤ q.bufferSize.getD h.options.bufferSize) :
    h.scanIndexed q slice =
      .ok ⟨h, .indexed ⟨h.name, none⟩ predicate expressions (h.readLevel slice),
        .unfetched start (q.bufferSize.getD h.options.bufferSize) q.limit⟩ := by
  have hparent : h.parent none = .ok ⟨h.name, none⟩ := rfl
  simp only [Handle.scanIndexed, hconditions, hstart, hparent, hpredicate,
    Cursor.ofStart_eq_ok hbuffer, ok_bind]
  rfl

/-- On a table without super columns, a scan over the rows that satisfy conditions answers the first
rows, as many as the limit allows, of those that a scan over all rows from the same start key on
with the same columns answers and that satisfy the conditions: in the same order and with the same
cells. The columns of the conditions need not be among those that are read, and the sizes of the
pages, which may differ, make no difference. Tables of cells are well formed in every reachable
state, as `Store.wellFormed_of_cells` says. Without super columns there is none that the slice could
name. -/
theorem scanIndexed_eq_filtered {pageSize : Option Nat} {s : Pool × Cluster} {t : Store.Table}
    (hserving : Serving s) (ht : s.2.store.table h.name = .ok t) (hwell : t.WellFormed)
    (hstandard : t.isSuper = false) (hdecodes : ∀ e ∈ t.rows, h.Decodes e.1 e.2)
    (hconditions : q.conditions.mapM h.packCondition = .ok expressions)
    (hindexed : ∃ e ∈ expressions, t.Indexes e) (hstart : h.packKeyEnd q.start = .ok start)
    (hslice : slice.superColumn = none) (hpredicate : h.predicate slice = .ok predicate)
    (hbuffer : 2 ≤ q.bufferSize.getD h.options.bufferSize)
    (hmost : q.bufferSize.getD h.options.bufferSize ≤ maxCount.toInt.toNat)
    (hpage : 2 ≤ pageSize.getD h.options.bufferSize)
    (hpageMost : pageSize.getD h.options.bufferSize ≤ maxCount.toInt.toNat) :
    let rows := (t.between ⟨h.name, none⟩ predicate start []).filter fun r => !r.entries.isEmpty
    ∃ full scan, ∃ (decoded : RowSlice → Row) (keep : Bytes → Bool),
      h.scanRange ⟨q.start, none, none, pageSize, slice⟩ = .ok full ∧
      h.scanIndexed q slice = .ok scan ∧ (∀ r ∈ rows, h.decodeRow r = .ok (decoded r)) ∧
      (∀ key row, t.row? key = some row → (keep key = true ↔ ∀ e ∈ expressions, t.Meets row e)) ∧
      ∀ budget calls, t.rows.length < budget → t.rows.length < calls →
        (∃ full' s', full.drain budget calls s = some (rows.map decoded, full', s')) ∧
        ∃ scan' s', scan.drain budget calls s = some
          (Cursor.atMost q.limit ((rows.filter fun r => keep r.key).map decoded), scan', s') := by
  intro rows
  have hs : ServingFrom s.2.store s := ⟨hserving, rfl⟩
  have hparent : h.parent slice.superColumn = .ok ⟨h.name, none⟩ := by
    rw [hslice]
    rfl
  have hcheck : t.checkParent none = .ok () := rfl
  -- the conditions of the row under a key
  let keep (key : Bytes) : Bool := (t.row? key).any fun row => t.satisfies row expressions
  have hkeep : ∀ key row, t.row? key = some row → keep key = t.satisfies row expressions := by
    intro key row hrow
    simp only [keep, hrow, Option.any_some]
  obtain ⟨decoded, hdecoded, -⟩ := @exists_decoded _ start [] ⟨h.name, none⟩ predicate t hdecodes
  -- the range has no more rows than the table, so both budgets suffice
  have hlength : (t.between ⟨h.name, none⟩ predicate start []).length ≤ t.rows.length := by
    rw [Store.Table.between, List.length_map]
    exact List.length_filter_le _ _
  -- what the server selects by the index is the range cut down to the rows that meet the conditions
  have hsatisfying : t.satisfying predicate expressions start =
      (t.between ⟨h.name, none⟩ predicate start []).filter fun r => keep r.key :=
    satisfying_eq_filter hwell.increasing hkeep rfl
  refine ⟨_, _, decoded, keep, scanRange_eq_ok hstart rfl hparent hpredicate hpage,
    scanIndexed_eq_ok hconditions hstart hpredicate hbuffer,
    fun r hr => hdecoded r (List.mem_of_mem_filter hr), ?_, ?_⟩
  · intro key row hrow
    obtain ⟨k, hmem, -⟩ := (Sorted.find?_eq_some_iff (fun _ _ => trivial) hwell.increasing
      Store.orderedOn_keys trivial).1 hrow
    rw [hkeep key row hrow]
    exact Store.Table.satisfies_iff (hwell.rows (k, row) hmem) hstandard expressions
  · intro budget calls hbudget hcalls
    constructor
    · -- the full scan pages through the range
      exact Scan.drain_of_pages (pages_range _ ht hcheck (.inr (.inl rfl)))
        (sortedByKey_between hwell.increasing) filter_start_between hdecoded hpage hpageMost none hs
        (Nat.lt_of_le_of_lt hlength hbudget) (Nat.lt_of_le_of_lt hlength hcalls)
    · -- the indexed scan pages through the same range, filtered, so the same argument applies to it
      have hpages :=
        @pages_indexed t ⟨h.name, none⟩ predicate expressions start _ (h.readLevel slice) ht
        hstandard hindexed
      rw [hsatisfying] at hpages
      have hfewer := Nat.le_trans (List.length_filter_le (fun r => keep r.key) _) hlength
      have hscan := Scan.drain_of_pages hpages
        ((sortedByKey_between hwell.increasing).sublist List.filter_sublist)
        (by rw [List.filter_comm, filter_start_between])
        (fun r hr => hdecoded r (List.mem_of_mem_filter hr)) hbuffer hmost q.limit hs
        (Nat.lt_of_le_of_lt hfewer hbudget) (Nat.lt_of_le_of_lt hfewer hcalls)
      rw [List.filter_comm] at hscan
      exact hscan

end Indexed

/-- The table of texts with an index for its second column. -/
def ratedPages : TableDef := { pages with columns := [⟨[121], "UTF8Type", true, none⟩] }

def ratedHandle : Handle := ⟨.ofDef .standard .default ratedPages, .default⟩

/-- The same four rows, of which the fourth one lacks the second column. -/
def fourRated :
    Store.Table := { Store.Table.ofDef .standard ratedPages with rows := fourPages.rows }

/-- A pool in front of a cluster that holds these rows. -/
def servedRated : Pool × Cluster :=
  (.ofConfig { PoolConfig.default with keyspace := "web" },
    { Cluster.ofKeyspace .standard ((KeyspaceDef.ofName "web").withTable ratedPages) with
      store := ⟨(KeyspaceDef.ofName "web").withTable ratedPages, [("pages", fourRated)]⟩ })

/-- The pages with a second column from `"2"` on. -/
def ratedTwo : IndexQuery := ⟨[⟨.text "y", .gte, .text "2"⟩], none, none, some 2⟩

/-- The first column is read of the first and the fourth row, and of the first one only if the
second column has to be there. -/
theorem scanIndexed_eq_filtered_ratedTwo :
    ∃ full scan first fourth,
      ratedHandle.scanRange ⟨none, none, none, some 3, firstColumns.slice⟩ = .ok full ∧
      ratedHandle.scanIndexed ratedTwo firstColumns.slice = .ok scan ∧
      (∃ full' s', full.drain 5 5 servedRated = some ([first, fourth], full', s')) ∧
      ∃ scan' s', scan.drain 5 5 servedRated = some ([first], scan', s') := by
  -- the pool has servers to reach, and each row decodes
  have hserving : Serving servedRated := by
    refine (Healthy.of_config ?_ ?_ ?_ ?_).serving
    · decide +kernel
    · exact fun _ _ => List.not_mem_nil
    · rfl
    · decide +kernel
  have hdecodes : ∀ e ∈ fourRated.rows, ratedHandle.Decodes e.1 e.2 := by
    intro e he
    simp only [fourRated, fourPages, List.mem_cons, List.not_mem_nil, or_false] at he
    rcases he with rfl | rfl | rfl | rfl <;> refine ⟨isOk_iff.1 (by decide +kernel), ?_⟩ <;>
      intro leaf hleaf <;> refine isOk_iff.1 ?_ <;> revert leaf <;> decide +kernel
  have htable : servedRated.2.store.table ratedHandle.name = .ok fourRated := by
    have hinc : servedRated.2.store.tables.Increasing compare := List.pairwise_singleton _ _
    exact (Store.table_eq_ok_iff hinc).2 (List.mem_singleton.2 rfl)
  have hwell : fourRated.WellFormed := by
    refine ⟨by show List.Pairwise _ _; decide +kernel, fun e he => ?_⟩
    simp only [fourRated, fourPages, List.mem_cons, List.not_mem_nil, or_false] at he
    rcases he with rfl | rfl | rfl | rfl <;>
      exact ⟨by decide +kernel, by show List.Pairwise _ _; decide +kernel,
        fun leaf hleaf => isOk_iff.1 (by revert leaf; decide +kernel), by decide +kernel⟩
  have hstandard : fourRated.isSuper = false := by decide +kernel
  have hindexed : ∃ e ∈ [⟨[121], .gte, [50]⟩], fourRated.Indexes e :=
    ⟨_, List.mem_singleton_self _, ⟨[121], "UTF8Type", true, none⟩, by decide +kernel, rfl⟩
  obtain ⟨full, scan, decoded, keep, hfull, hscan, -, hkeep, hdrain⟩ :=
    @scanIndexed_eq_filtered ratedHandle ratedTwo firstColumns.slice [] (.ofNames [[120]])
      [⟨[121], .gte, [50]⟩] (some 3) servedRated fourRated hserving htable hwell hstandard hdecodes
      (by decide +kernel) hindexed rfl rfl (by decide +kernel) (by decide +kernel)
      (by decide +kernel) (by decide +kernel) (by decide +kernel)
  -- two of the rows have the first column
  have hrows :
    ((fourRated.between ⟨ratedHandle.name, none⟩ (.ofNames [[120]]) [] []).filter fun r =>
      !r.entries.isEmpty) = [⟨[97], [.column ⟨[120], [49], 1, none⟩]⟩,
        ⟨[100], [.column ⟨[120], [52], 1, none⟩]⟩] := by
    decide +kernel
  have htested : ∀ e ∈ fourRated.rows,
      keep e.1 = fourRated.satisfies e.2 [⟨[121], .gte, [50]⟩] := by
    intro e he
    have hrow : fourRated.row? e.1 = some e.2 := by
      rw [Store.Table.row?, hwell.increasing.find?_eq_lookup]
      exact hwell.increasing.lookup_eq_some_iff.2 he
    rw [Bool.eq_iff_iff, hkeep e.1 e.2 hrow, Store.Table.satisfies_iff (hwell.rows e he) hstandard]
  have hfirst : keep [97] = true :=
    (htested _ (List.mem_of_getElem? (i := 0) rfl)).trans (by decide +kernel)
  have hfourth : keep [100] = false :=
    (htested _ (List.mem_of_getElem? (i := 3) rfl)).trans (by decide +kernel)
  obtain ⟨hrange, hindex⟩ := hdrain 5 5 (by decide) (by decide)
  rw [hrows] at hrange hindex
  simp only [List.filter_cons, hfirst, hfourth] at hindex
  exact ⟨full, scan, _, _, hfull, hscan, hrange, hindex⟩

end WideColumn
