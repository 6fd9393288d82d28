import WideColumn.Proofs.Handle.SingleWrite
import WideColumn.Proofs.Handle.Mutations
import WideColumn.Proofs.Store.Holdings

/-!
# The removal of a counter

A counter is removed by a deletion of one name. In a table without super columns, and in a super
column that is given, the name is that of the counter, and no other counter is touched. Without a
super column in a table that has them the same name is taken for that of a super column, which goes
with all its counters, although the call names none of them.

- `Handle.once_removeCounter`: a removal that is answered is one deletion, whatever fails on the
  way;
- `RowData.eq_of_names`: one name addresses one counter;
- `removeCounter_removes_named`: what the removal of a counter leaves in every reachable state;
- `removeCounter_whole_superColumn`: without a super column it may take several counters away.
-/

namespace WideColumn

/-! ## One deletion -/

/-- The removal of a counter makes one change or none: the deletion of the packed name. -/
theorem Handle.once_removeCounter (h : Handle) (key column : Value) (superColumn : Option Value) :
    Once (fun operation => ∃ packed given name, h.packKey key = .ok packed ∧
        h.address superColumn column = .ok (given, name) ∧
        operation = .remove packed ⟨h.name, given, some name⟩ none)
      (h.removeCounter key column superColumn) := by
  refine .ofExcept_bind fun _ _ => .ofExcept_bind fun packed hkey =>
    .ofExcept_bind fun given hgiven => .ofExcept_bind fun name hname => ?_
  exact .call rfl nofun ⟨packed, given, name, hkey, address_eq_ok.2 ⟨hgiven, hname⟩, rfl⟩

namespace Store

/-- The removal of a counter that a store accepts is the write of a deletion. -/
theorem write_of_removeCounter {s : Store} {key : Bytes} {table : String} {given : Option Bytes}
    {name : Bytes} (hanswer : s.answer (.remove key ⟨table, given, some name⟩ none) = .ok ()) :
    ∃ t, s.table table = .ok t ∧ t.holdsCounters = true ∧ (given.isSome = true → t.isSuper = true) ∧
      s.write key table (.delete (.ofNames none given [name])) =
        .ok (s.apply (.remove key ⟨table, given, some name⟩ none)) := by
  obtain ⟨t, ht, hcounters, hlayout, t', ht', hset⟩ := remove_eq_ok.1 (ok_of_answer hanswer)
  refine ⟨t, ht, hcounters, hlayout, write_eq_ok.2 ⟨t, ht, t', ?_, hset⟩⟩
  cases given <;> exact ht'

/-! ## The counter of a name -/

/-- Two names of a list in order that compare equal to the same bytes are one. -/
theorem Named.eq_of_order {α : Type} {type : DataType} {entries : Sorted Bytes α}
    (h : Named type entries) {name k k' : Bytes} {v v' : α} (hk : (k, v) ∈ entries)
    (hk' : (k', v') ∈ entries) (heq : type.compare k name = .eq)
    (heq' : type.compare k' name = .eq) :
    k = k' := by
  obtain ⟨i, hi⟩ := List.mem_iff_getElem?.1 hk
  obtain ⟨j, hj⟩ := List.mem_iff_getElem?.1 hk'
  have hfound {i : Nat} {e : Bytes × α} (he : entries[i]? = some e)
      (heq : type.compare e.1 name = .eq) :
      entries.index? type.compare name = some i :=
    (Sorted.index?_eq_some_iff_of_names h.accepted h.increasing).2 ⟨e, he, heq⟩
  -- the search finds one place only
  cases (hfound hi heq).symm.trans (hfound hj heq')
  cases hi.symm.trans hj
  rfl

namespace RowData

variable {t : Table} {row : RowData} {given superColumn superColumn' : Option Bytes}
  {name column column' : Bytes} {leaf leaf' : Leaf}

/-- With a super column exactly where the table has them, a name addresses one leaf. -/
theorem eq_of_names (h : Ordered t row) (hlayout : t.isSuper = given.isSome)
    (hleaf : row.Holds superColumn column leaf) (hleaf' : row.Holds superColumn' column' leaf')
    (hnames : Deletion.Names t given superColumn column name)
    (hnames' : Deletion.Names t given superColumn' column' name) :
    superColumn = superColumn' ∧ column = column' := by
  -- Both leaves are of one layout, and on each level a name is that of one entry at most.
  cases hleaf with
  | flat hmem =>
    cases hleaf' with
    | flat hmem' => exact ⟨rfl, h.2.eq_of_order hmem hmem' hnames hnames'⟩
  | grouped hsuper hmem =>
    cases hleaf' with
    | grouped hsuper' hmem' =>
      obtain ⟨hgrouped, hsupers, hleaves⟩ := h
      cases given with
      | none => cases hgrouped.symm.trans hlayout
      | some given =>
        cases hsupers.eq_of_order hsuper hsuper' hnames.1 hnames'.1
        cases hsupers.eq_of_mem hsuper hsuper'
        exact ⟨rfl, (hleaves _ hsuper).eq_of_order hmem hmem' hnames.2 hnames'.2⟩

/-- If the names are exact, it is the leaf of these names. -/
theorem eq_of_names_exact (h : Ordered t row) (hlayout : t.isSuper = given.isSome)
    (hgiven : ∀ name ∈ given, Exact t.comparator.Accepts t.comparator.compare name)
    (hname : Exact t.leafComparator.Accepts t.leafComparator.compare name)
    (hleaf : row.Holds superColumn column leaf)
    (hnames : Deletion.Names t given superColumn column name) :
    superColumn = given ∧ column = name := by
  -- A name that is exact compares equal to no other.
  cases hleaf with
  | flat hmem =>
    rw [Table.leafComparator, h.1] at hname
    rw [h.1] at hlayout
    cases given with
    | none => exact ⟨rfl, hname.eq_of_compare _ (h.2.accepted _ hmem) hnames⟩
    | some given => cases hlayout
  | grouped hsuper hmem =>
    obtain ⟨hgrouped, hsupers, hleaves⟩ := h
    rw [Table.leafComparator, hgrouped] at hname
    cases given with
    | none => cases hgrouped.symm.trans hlayout
    | some given =>
      have heq := (hgiven given rfl).eq_of_compare _ (hsupers.accepted _ hsuper) hnames.1
      have hcolumn := hname.eq_of_compare _ ((hleaves _ hsuper).accepted _ hmem) hnames.2
      exact ⟨congrArg some heq, hcolumn⟩

end RowData

/-- Whether the removal of the counter at an address takes a counter for the one that it names:
their names compare equal, and without a super column the name is compared with those of super
columns, where there are any. -/
def Address.Names (named : Address) (t : Table) (a : Address) : Prop :=
  a.table = named.table ∧ a.key = named.key ∧
    Deletion.Names t named.superColumn a.superColumn a.column named.column

/-- One name in a row in order addresses one counter. -/
theorem Address.Names.unique {s : Store} {t : Table} {named a a' : Address} {leaf leaf' : Leaf}
    (hs : s.RowsOrdered) (ht : s.table named.table = .ok t)
    (hlayout : t.isSuper = named.superColumn.isSome) (hnames : named.Names t a)
    (hnames' : named.Names t a') (hleaf : s.Holds a leaf) (hleaf' : s.Holds a' leaf') : a = a' := by
  obtain ⟨htable, hkey, hnames⟩ := hnames
  obtain ⟨htable', hkey', hnames'⟩ := hnames'
  obtain ⟨row, hrow, hholds⟩ := hleaf
  obtain ⟨row', hrow', hholds'⟩ := hleaf'
  rw [htable, hkey] at hrow
  rw [htable', hkey'] at hrow'
  cases hrow.symm.trans hrow'
  obtain ⟨hsuper, hcolumn⟩ :=
    RowData.eq_of_names (hs.rows _ _ _ _ ht hrow) hlayout hholds hholds' hnames hnames'
  exact Address.ext (htable.trans htable'.symm) (hkey.trans hkey'.symm) hsuper hcolumn

private theorem Address.Names.eq_of_exact {s : Store} {t : Table} {named a : Address} {leaf : Leaf}
    (hs : s.RowsOrdered) (ht : s.table named.table = .ok t)
    (hlayout : t.isSuper = named.superColumn.isSome)
    (hgiven : ∀ name ∈ named.superColumn, Exact t.comparator.Accepts t.comparator.compare name)
    (hname : Exact t.leafComparator.Accepts t.leafComparator.compare named.column)
    (hnames : named.Names t a) (hleaf : s.Holds a leaf) : a = named := by
  obtain ⟨htable, hkey, hnames⟩ := hnames
  obtain ⟨row, hrow, hholds⟩ := hleaf
  rw [htable, hkey] at hrow
  obtain ⟨hsuper, hcolumn⟩ :=
    RowData.eq_of_names_exact (hs.rows _ _ _ _ ht hrow) hlayout hgiven hname hholds hnames
  exact Address.ext htable hkey hsuper hcolumn

end Store

/-! ## Main result -/

/-- In every reachable state the removal of a counter that is answered leaves all counters that it
does not name as they are, and adds none. Names that are packed are compared as the table compares
them. In reachable states in which the super columns of all increments decode, the counters that it
names are gone; and with a super column exactly where the table has them it names one counter at
most, which for a handle with the types of the table is the one at the packed address. -/
theorem removeCounter_removes_named {registry : Registry} {keyspace : KeyspaceDef}
    {operations : List Store.Operation} {h : Handle} {key column : Value}
    {superColumn : Option Value} {s s' : Pool × Cluster}
    (hstore : s.2.store = (Store.ofKeyspace registry keyspace).run operations)
    (hremove : h.removeCounter key column superColumn s = .ok () s') :
    ∃ (t : Store.Table) (named : Store.Address), named.table = h.name ∧
      s.2.store.table h.name = .ok t ∧ t.holdsCounters = true ∧ h.packKey key = .ok named.key ∧
      h.address superColumn column = .ok (named.superColumn, named.column) ∧
      (∀ a leaf, s.2.store.Holds a leaf → ¬named.Names t a → s'.2.store.Holds a leaf) ∧
      (∀ a leaf, s'.2.store.Holds a leaf → s.2.store.Holds a leaf) ∧
      ((∀ operation ∈ operations,
          operation.Allowed Store.Table.SuperNameDecodes (Store.ofKeyspace registry keyspace)) →
        (∀ a leaf, named.Names t a → ¬s'.2.store.Holds a leaf) ∧
        (t.isSuper = named.superColumn.isSome →
          (∀ a a' leaf leaf', named.Names t a → named.Names t a' → s.2.store.Holds a leaf →
            s.2.store.Holds a' leaf' → a = a') ∧
          (h.Agrees t → ∀ a leaf, named.Names t a → s.2.store.Holds a leaf → a = named))) := by
  -- A removal that is answered was made just once, and it deletes one name.
  have honce := Handle.once_removeCounter h key column superColumn s
  rw [hremove] at honce
  obtain ⟨_, ⟨packed, given, name, hkey, haddress, rfl⟩, hanswer, hstore'⟩ := honce
  obtain ⟨t, ht, hcounters, -, hwrite⟩ := Store.write_of_removeCounter hanswer
  rw [← hstore'] at hwrite
  have hordered : s.2.store.Ordered := hstore ▸ Store.ordered_run registry keyspace operations
  refine ⟨t, ⟨h.name, packed, given, name⟩, rfl, ht, hcounters, hkey, haddress,
    fun a leaf hholds hother => ?_, fun a leaf hholds => hholds.of_delete hordered ht hwrite,
    fun hnames => ?_⟩
  · -- a leaf that is not named stays
    refine hholds.delete hordered ht hwrite fun htable hkey' => ?_
    rw [List.forall_mem_singleton]
    exact fun hnamed => hother ⟨htable, hkey', hnamed⟩
  · -- where the increments decode, rows are in order and a name is found wherever it stands
    have hrows : s.2.store.RowsOrdered := hstore ▸ Store.rowsOrdered_run hnames
    refine ⟨fun a leaf hnamed hholds => ?_, fun hlayout =>
      ⟨?_, fun hagrees a leaf hnamed hholds => ?_⟩⟩
    · obtain ⟨htable, hkey', hnamed⟩ := hnamed
      exact Store.not_holds_of_delete hrows ht hwrite htable hkey' (List.mem_singleton.2 rfl) hnamed
        hholds
    · exact fun a a' leaf leaf' hnamed hnamed' hholds hholds' =>
        hnamed.unique hrows ht hlayout hnamed' hholds hholds'
    · obtain ⟨hgiven, hname⟩ := Handle.exact_of_address hagrees haddress
      exact hnamed.eq_of_exact hrows ht hlayout (fun name hname => (hgiven name hname).2)
        hname hholds

/-- Hits of the pages of a site. -/
def pageHits : TableDef :=
  { TableDef.ofName "web" "hits" with
    layout := .super, comparator := "UTF8Type", subcomparator := some "UTF8Type",
    validation := "CounterColumnType", keyValidation := "UTF8Type" }

def pageHitsKeyspace : KeyspaceDef := (KeyspaceDef.ofName "web").withTable pageHits

def pageHitsHandle : Handle := ⟨.ofDef .standard .default pageHits, .default⟩

/-- Two counters of one page and one of another. -/
def threeHits : List Store.Operation :=
  [.add [115] ⟨"hits", some [97]⟩ ⟨[120], 5⟩, .add [115] ⟨"hits", some [97]⟩ ⟨[121], 2⟩,
    .add [115] ⟨"hits", some [98]⟩ ⟨[120], 1⟩]

/-- A pool in front of these counters. -/
def hitsServed : Pool × Cluster :=
  ((served pageHitsKeyspace).1,
    { (served pageHitsKeyspace).2 with
      store := (Store.ofKeyspace .standard pageHitsKeyspace).run threeHits })

/-- A counter of a page is removed, and the other two stay. -/
theorem removeCounter_removes_named_page :
    ∃ s', pageHitsHandle.removeCounter (.text "s") (.text "x") (some (.text "a")) hitsServed =
        .ok () s' ∧
      s'.2.store.Holds ⟨"hits", [115], some [97], [121]⟩ (.counter 2) ∧
      s'.2.store.Holds ⟨"hits", [115], some [98], [120]⟩ (.counter 1) ∧
      ∀ leaf, ¬s'.2.store.Holds ⟨"hits", [115], some [97], [120]⟩ leaf := by
  obtain ⟨⟨⟩, s', hremove, -⟩ := @Client.exists_of_answersWith _ _ hitsServed
    (pageHitsHandle.removeCounter (.text "s") (.text "x") (some (.text "a"))) (fun _ _ => true)
    (by decide +kernel)
  obtain ⟨t, named, htable, ht, -, hkey, haddress, hkept, -, hordered⟩ :=
    @removeCounter_removes_named .standard pageHitsKeyspace threeHits _ _ _ _ hitsServed
    s' rfl hremove
  -- The names compare like texts, and this is the address that they are packed to.
  have htypes : (fun t : Store.Table => (t.comparator, t.subcomparator)) <$>
      hitsServed.2.store.table pageHitsHandle.name = .ok (.utf8, .utf8) := by
    decide +kernel
  rw [ht] at htypes
  obtain ⟨hcomparator, hsubcomparator⟩ := Prod.mk.inj (Except.ok.inj htypes)
  have hkey' : pageHitsHandle.packKey (.text "s") = .ok [115] := by decide +kernel
  have haddress' : pageHitsHandle.address (some (.text "a")) (.text "x") =
      .ok (some [97], [120]) := by
    decide +kernel
  obtain ⟨hsuper, hcolumn⟩ := Prod.mk.inj (Except.ok.inj (haddress.symm.trans haddress'))
  obtain rfl : named = ⟨"hits", [115], some [97], [120]⟩ :=
    Store.Address.ext htable (Except.ok.inj (hkey.symm.trans hkey')) hsuper hcolumn
  have hnames : ∀ superColumn column, (⟨"hits", [115], some [97], [120]⟩ : Store.Address).Names t
      ⟨"hits", [115], some superColumn, column⟩ ↔
        DataType.compare .utf8 superColumn [97] = .eq ∧
        DataType.compare .utf8 column [120] = .eq := by
    intro superColumn column
    simp [Store.Address.Names, Deletion.Names, Store.Table.order, Store.Table.suborder, hcomparator,
      hsubcomparator]
  have hdecodes : ∀ operation ∈ threeHits, operation.Allowed Store.Table.SuperNameDecodes
      (Store.ofKeyspace .standard pageHitsKeyspace) := by
    have htext : (fun t : Store.Table => t.comparator) <$>
        (Store.ofKeyspace .standard pageHitsKeyspace).table "hits" = .ok .utf8 := by
      decide +kernel
    intro operation hoperation key name w hw t ht
    simp only [threeHits, List.mem_cons, List.not_mem_nil, or_false] at hoperation
    rcases hoperation with rfl | rfl | rfl <;> cases List.mem_singleton.1 hw
    all_goals
      rw [ht] at htext
      have hutf8 : t.comparator = .utf8 := Except.ok.inj htext
      show t.comparator.Accepts _
      rw [hutf8]
      exact isOk_iff.1 (by decide +kernel)
  obtain ⟨hgone, -⟩ := hordered hdecodes
  have hrow : hitsServed.2.store.row? "hits" [115] = some (.grouped
      [([97], [([120], .counter 5), ([121], .counter 2)]), ([98], [([120], .counter 1)])]) := by
    decide +kernel
  refine ⟨s', hremove, hkept _ _ ?_ ?_, hkept _ _ ?_ ?_, fun leaf => hgone _ _ ?_⟩
  · exact ⟨_, hrow, .grouped List.mem_cons_self (List.mem_cons_of_mem _ List.mem_cons_self)⟩
  · rw [hnames]
    decide +kernel
  · exact ⟨_, hrow, .grouped (List.mem_cons_of_mem _ List.mem_cons_self) List.mem_cons_self⟩
  · rw [hnames]
    decide +kernel
  · rw [hnames]
    decide +kernel

/-- Without a page the name of a counter is taken for that of a page, which goes as a whole. -/
theorem removeCounter_whole_superColumn :
    ∃ s', pageHitsHandle.removeCounter (.text "s") (.text "a") none hitsServed = .ok () s' ∧
      hitsServed.2.store.at? ⟨"hits", [115], some [97], [120]⟩ = some (.counter 5) ∧
      hitsServed.2.store.at? ⟨"hits", [115], some [97], [121]⟩ = some (.counter 2) ∧
      s'.2.store.leaves? "hits" [115] (some [97]) = none := by
  obtain ⟨⟨⟩, s', hremove, hgone⟩ := @Client.exists_of_answersWith _ _ hitsServed
    (pageHitsHandle.removeCounter (.text "s") (.text "a") none)
    (fun _ s' => s'.2.store.leaves? "hits" [115] (some [97]) == none) (by decide +kernel)
  exact ⟨s', hremove, by decide +kernel, by decide +kernel, by simpa using hgone⟩

end WideColumn
