import WideColumn.Proofs.Query.Selects
import WideColumn.Proofs.Store.Cells
import WideColumn.Proofs.Store.Supers

/-!
# What a deletion removes

A deletion names a row, perhaps a super column in it, and a predicate. It takes away the leaves that
these select, except for cells that are newer than the deletion, and the super columns that it
empties. Rows stay, and nothing else changes.

- `Deletion.Addresses` and `Leaf.Shadowed`: which leaves a deletion takes away;
- `deleteFrom_grouped`: both forms of deletion in a row of super columns are one change of each of
  them;
- `leaf?_deleteFrom` and `leaves?_deleteFrom`: the leaves and super columns that are left in a row;
- `delete_removes_addressed`: what an accepted deletion makes of a store.
-/

namespace WideColumn

/-! ## What a deletion addresses -/

/-- Whether a deletion is about the leaves in a super column: the one it names, or any if it names
none. -/
def Deletion.Covers (d : Deletion) (t : Store.Table) (superColumn : Bytes) : Prop :=
  ∀ given ∈ d.superColumn, t.order superColumn given = .eq

/-- Whether a deletion addresses the leaf of a name. In a flat row, and in a super column it names,
the predicate is about the leaves, and otherwise about the super columns, with all their leaves. -/
def Deletion.Addresses (d : Deletion) (t : Store.Table) :
    Store.RowData → Option Bytes → Bytes → Prop
  | .flat leaves, _, name => ∀ p ∈ d.predicate, p.Selects t.order leaves name
  | .grouped supers, some superColumn, name =>
    d.Covers t superColumn ∧ ∀ p ∈ d.predicate,
      match d.superColumn with
      | none => p.Selects t.order supers superColumn
      | some _ => ∃ leaves, (superColumn, leaves) ∈ supers ∧ p.Selects t.suborder leaves name
  | .grouped _, none, _ => False

namespace Store

/-! ## Leaves -/

/-- A deletion takes away a counter, and a cell that is not newer than the deletion. -/
inductive Leaf.Shadowed (deletedAt : Option Int64) : Leaf → Prop where
  | counter (value : Int64) : Shadowed deletedAt (.counter value)
  | always (leaf : Leaf) (hnone : deletedAt = none) : Shadowed deletedAt leaf
  | older {timestamp deleted : Int64} (value : Bytes) (ttl : Option Int32)
      (hdeleted : deletedAt = some deleted) (hle : timestamp ≤ deleted) :
      Shadowed deletedAt (.cell value timestamp ttl)

private theorem Leaf.shadowedBy_iff {deletedAt : Option Int64} {leaf : Leaf} :
    leaf.shadowedBy deletedAt = true ↔ leaf.Shadowed deletedAt := by
  constructor
  · intro h
    cases leaf with
    | counter value => exact .counter value
    | cell value timestamp ttl =>
      cases deletedAt with
      | none => exact .always _ rfl
      | some deleted => exact .older value ttl rfl (of_decide_eq_true h)
  · intro h
    cases h with
    | counter => rfl
    | always leaf hnone => cases leaf <;> simp [shadowedBy, hnone]
    | older value ttl hdeleted hle => simp [shadowedBy, hdeleted, hle]

section Leaves

variable {type : DataType} {leaves : Leaves}

private theorem mem_delete_iff (h : Named type leaves) {predicate : Option SlicePredicate}
    {deletedAt : Option Int64} {name : Bytes} {leaf : Leaf} :
    (name, leaf) ∈ leaves.delete type.compare predicate deletedAt ↔ (name, leaf) ∈ leaves ∧
      ¬((∀ p ∈ predicate, p.Selects type.compare leaves name) ∧ leaf.Shadowed deletedAt) := by
  rw [Leaves.delete, List.mem_filter]
  refine and_congr_right fun hmem => ?_
  simp only [Bool.not_eq_true', Bool.and_eq_false_imp, List.contains_iff_mem,
    mem_selectedNames_iff h, ← Leaf.shadowedBy_iff, not_and, Bool.not_eq_true]
  exact ⟨fun hkept hselects => hkept ⟨⟨leaf, hmem⟩, hselects⟩, fun hkept hdoomed => hkept hdoomed.2⟩

end Leaves

/-! ## Rows -/

/-- A row has the layout of its table, and its names decode and stand in order on every level. -/
def RowData.Ordered (t : Table) : RowData → Prop
  | .flat leaves => t.isSuper = false ∧ Named t.comparator leaves
  | .grouped supers => t.isSuper = true ∧ Named t.comparator supers ∧
      ∀ e ∈ supers, Named t.subcomparator e.2

namespace RowData

variable {t : Table} {d : Deletion} {supers : Sorted Bytes Leaves}

theorem Ordered.of_wellFormed {row : RowData} (h : WellFormed t row) : Ordered t row := by
  cases row with
  | flat leaves => exact ⟨h.1, h.2.increasing, h.2.names⟩
  | grouped supers =>
    exact ⟨h.1, ⟨h.2.1, h.2.2.1⟩, fun e he => ⟨(h.2.2.2 e he).increasing, (h.2.2.2 e he).names⟩⟩

/-- The leaves of a super column after a deletion. -/
def leavesLeft (t : Table) (d : Deletion) (supers : Sorted Bytes Leaves) (e : Bytes × Leaves) :
    Leaves :=
  match d.superColumn with
  | none =>
    if (selectedNames t.order d.predicate supers).contains e.1 then
      e.2.delete t.suborder none d.timestamp
    else e.2
  | some given =>
    if t.order e.1 given = .eq then e.2.delete t.suborder d.predicate d.timestamp else e.2

instance (superColumn : Bytes) : Decidable (d.Covers t superColumn) :=
  inferInstanceAs (Decidable (∀ given ∈ d.superColumn, t.order superColumn given = .eq))

private theorem covers_of_none (hd : d.superColumn = none) (superColumn : Bytes) :
    d.Covers t superColumn := by
  rw [Deletion.Covers, hd]
  exact nofun

private theorem covers_iff {given superColumn : Bytes} (hd : d.superColumn = some given) :
    d.Covers t superColumn ↔ t.order superColumn given = .eq := by
  rw [Deletion.Covers, hd]
  exact ⟨fun h => h given rfl, fun h _ hgiven => Option.mem_some_iff.1 hgiven ▸ h⟩

/-- Super columns that a deletion does not cover stay as they are. -/
theorem leavesLeft_of_not_covers {e : Bytes × Leaves} (h : ¬d.Covers t e.1) :
    leavesLeft t d supers e = e.2 := by
  cases hd : d.superColumn with
  | none => exact absurd (covers_of_none hd e.1) h
  | some given =>
    rw [covers_iff hd] at h
    simp only [leavesLeft, hd, if_neg h]

/-- What a deletion leaves of super columns of a row. Of those that it covers it drops the ones
without leaves. -/
def supersLeft (t : Table) (d : Deletion) (supers entries : Sorted Bytes Leaves) :
    Sorted Bytes Leaves :=
  (entries.map fun e => (e.1, leavesLeft t d supers e)).filter fun e =>
    !(decide (d.Covers t e.1) && e.2.isEmpty)

private theorem supersLeft_of_not_covers {entries : Sorted Bytes Leaves}
    (h : ∀ e ∈ entries, ¬d.Covers t e.1) :
    supersLeft t d supers entries = entries := by
  have hmap : (entries.map fun e => (e.1, leavesLeft t d supers e)) = entries :=
    (List.map_congr_left fun e he =>
      congrArg (Prod.mk e.1) (leavesLeft_of_not_covers (h e he))).trans
      (List.map_id entries)
  rw [supersLeft, hmap]
  exact List.filter_eq_self.2 fun e he => by simp [h e he]

private theorem mem_supersLeft {entries : Sorted Bytes Leaves} {superColumn : Bytes}
    {leaves : Leaves} :
    (superColumn, leaves) ∈ supersLeft t d supers entries ↔
      ∃ old, (superColumn, old) ∈ entries ∧ leavesLeft t d supers (superColumn, old) = leaves ∧
        (d.Covers t superColumn → leaves ≠ []) := by
  simp only [supersLeft, List.mem_filter, List.mem_map, Bool.not_eq_true', Bool.and_eq_false_imp,
    decide_eq_true_eq, List.isEmpty_eq_false_iff]
  constructor
  · rintro ⟨⟨⟨superColumn, old⟩, hmem, heq⟩, hkept⟩
    cases heq
    exact ⟨old, hmem, rfl, hkept⟩
  · rintro ⟨old, hmem, rfl, hkept⟩
    exact ⟨⟨_, hmem, rfl⟩, hkept⟩

/-- The search for a named super column finds the place of those that are covered. -/
theorem index?_eq_some_iff_covers (h : Named t.comparator supers) {given : Bytes}
    (hd : d.superColumn = some given) {i : Nat} :
    supers.index? t.order given = some i ↔ ∃ e, supers[i]? = some e ∧ d.Covers t e.1 := by
  simp only [covers_iff hd]
  exact Sorted.index?_eq_some_iff_of_names h.accepted h.increasing

/-- It finds one place, so the super columns around it are not covered. -/
theorem covers_of_index? {before after : Sorted Bytes Leaves} {e : Bytes × Leaves} {given : Bytes}
    (h : Named t.comparator (before ++ e :: after)) (hd : d.superColumn = some given)
    (hindex : (before ++ e :: after).index? t.order given = some before.length) :
    d.Covers t e.1 ∧ (∀ e' ∈ before, ¬d.Covers t e'.1) ∧ ∀ e' ∈ after, ¬d.Covers t e'.1 := by
  have hfound := @index?_eq_some_iff_covers t d _ h given hd
  -- an entry that the deletion covers is the one the search found, so it stands at its place
  have hplace : ∀ {j : Nat} {e' : Bytes × Leaves}, (before ++ e :: after)[j]? = some e' →
      d.Covers t e'.1 → j = before.length := fun he' hcovers =>
    Option.some.inj ((hfound.2 ⟨_, he', hcovers⟩).symm.trans hindex)
  refine ⟨?_, fun e' he' hcovers => ?_, fun e' he' hcovers => ?_⟩
  · obtain ⟨e', he', hcovers⟩ := hfound.1 hindex
    rw [List.getElem?_append_right (Nat.le_refl _), Nat.sub_self] at he'
    cases he'
    exact hcovers
  · -- an earlier entry stands at an earlier place
    obtain ⟨j, hj⟩ := List.mem_iff_getElem?.1 he'
    have hlt : j < before.length := (List.getElem?_eq_some_iff.1 hj).1
    rw [← List.getElem?_append_left hlt] at hj
    exact Nat.ne_of_lt hlt (hplace hj hcovers)
  · -- a later entry stands at a later place
    obtain ⟨j, hj⟩ := List.mem_iff_getElem?.1 he'
    have hj' : (before ++ e :: after)[before.length + (j + 1)]? = some e' := by
      rw [List.getElem?_append_right (Nat.le_add_right _ _), Nat.add_sub_cancel_left,
        List.getElem?_cons_succ, hj]
    have hsame := hplace hj' hcovers
    omega

/-- Both forms of deletion change the super columns one by one. -/
theorem deleteFrom_grouped (h : Named t.comparator supers) :
    t.deleteFrom d (.grouped supers) = .grouped (supersLeft t d supers supers) := by
  cases hd : d.superColumn with
  | none =>
    -- All super columns are covered.
    have hcovers : ∀ superColumn, decide (d.Covers t superColumn) = true := fun superColumn =>
      decide_eq_true (covers_of_none hd superColumn)
    simp only [Table.deleteFrom, supersLeft, hd, leavesLeft, hcovers, Bool.true_and]
  | some given =>
    cases hindex : supers.index? t.order given with
    | none =>
      have hnone : ∀ e ∈ supers, ¬d.Covers t e.1 := by
        intro e he hcovers
        obtain ⟨i, hi⟩ := List.mem_iff_getElem?.1 he
        cases hindex.symm.trans ((index?_eq_some_iff_covers h hd).2 ⟨e, hi, hcovers⟩)
      rw [supersLeft_of_not_covers hnone]
      simp only [Table.deleteFrom, hd, hindex]
    | some i =>
      obtain ⟨before, ⟨k, leaves⟩, after, rfl, rfl⟩ := Sorted.exists_of_index? hindex
      obtain ⟨hcovers, hbefore, hafter⟩ := covers_of_index? h hd hindex
      have hleft : leavesLeft t d (before ++ (k, leaves) :: after) (k, leaves) =
          leaves.delete t.suborder d.predicate d.timestamp := by
        simp only [leavesLeft, hd, if_pos ((covers_iff hd).1 hcovers)]
      -- the super columns around the one that is found stay as they are
      have hbefore' := @supersLeft_of_not_covers t d (before ++ (k, leaves) :: after) _ hbefore
      have hafter' := @supersLeft_of_not_covers t d (before ++ (k, leaves) :: after) _ hafter
      rw [supersLeft] at hbefore' hafter'
      rw [deleteFrom_at hd hindex rfl, supersLeft, List.map_append, List.map_cons,
        List.filter_append,
        List.filter_cons, hbefore', hafter', hleft, decide_eq_true hcovers, Bool.true_and]
      cases leaves.delete t.suborder d.predicate d.timestamp <;> rfl

/-- The rows of the table have no part in the order of one of them. -/
theorem Ordered.of_emptied {t' : Table} {row : RowData} (h : Ordered t row)
    (hsame : t.emptied = t'.emptied) : Ordered t' row := by
  have hemptied (t : Table) : Ordered t.emptied row ↔ Ordered t row := by
    cases row <;> exact Iff.rfl
  rwa [← hemptied, ← hsame, hemptied]

/-- What is left in a super column are the leaves that are not both addressed and shadowed. -/
theorem mem_leavesLeft_iff (h : Ordered t (.grouped supers)) {superColumn name : Bytes}
    {leaves : Leaves} {leaf : Leaf} (hmem : (superColumn, leaves) ∈ supers) :
    (name, leaf) ∈ leavesLeft t d supers (superColumn, leaves) ↔ (name, leaf) ∈ leaves ∧
      ¬(d.Addresses t (.grouped supers) (some superColumn) name ∧ leaf.Shadowed d.timestamp) := by
  obtain ⟨-, hsupers, hleaves⟩ := h
  have hnamed : Named t.subcomparator leaves := hleaves _ hmem
  cases hd : d.superColumn with
  | none =>
    -- The predicate is about the super columns.
    have hselected : (selectedNames t.order d.predicate supers).contains superColumn = true ↔
        d.Addresses t (.grouped supers) (some superColumn) name := by
      rw [List.contains_iff_mem, Table.order, mem_selectedNames_iff hsupers]
      simp only [Deletion.Addresses, hd, covers_of_none hd, true_and]
      exact ⟨fun h => h.2, fun h => ⟨⟨leaves, hmem⟩, h⟩⟩
    simp only [leavesLeft, hd]
    split
    · next hcontains =>
      -- no predicate is left for the leaves
      rw [Table.suborder, mem_delete_iff hnamed, ← hselected]
      simp only [hcontains, true_and, Option.not_mem_none, false_imp_iff, implies_true]
    · next hcontains =>
      rw [hselected] at hcontains
      simp only [hcontains, false_and, not_false_iff, and_true]
  | some given =>
    -- The predicate is about the leaves of the super column that is covered.
    by_cases hcovers : d.Covers t superColumn
    · have haddressed : d.Addresses t (.grouped supers) (some superColumn) name ↔
          ∀ p ∈ d.predicate, p.Selects t.suborder leaves name := by
        simp only [Deletion.Addresses, hd, hcovers, true_and]
        refine forall₂_congr fun p _ => ⟨?_, fun hselects => ⟨leaves, hmem, hselects⟩⟩
        rintro ⟨leaves', hmem', hselects⟩
        exact hsupers.eq_of_mem hmem' hmem ▸ hselects
      simp only [leavesLeft, hd, if_pos ((covers_iff hd).1 hcovers), haddressed]
      exact mem_delete_iff hnamed
    · rw [leavesLeft_of_not_covers hcovers]
      simp only [Deletion.Addresses, hcovers, false_and, not_false_iff, and_true]

private theorem leavesLeft_sublist (e : Bytes × Leaves) :
    (leavesLeft t d supers e).Sublist e.2 := by
  -- deleting filters, and the other leaves stay as they are
  have hdelete {order : Bytes → Bytes → Ordering} {predicate : Option SlicePredicate} :
      (e.2.delete order predicate d.timestamp).Sublist e.2 := List.filter_sublist
  cases hd : d.superColumn with
  | none =>
    simp only [leavesLeft, hd]
    split
    · exact hdelete
    · exact List.Sublist.refl _
  | some given =>
    simp only [leavesLeft, hd]
    split
    · exact hdelete
    · exact List.Sublist.refl _

/-- A deletion keeps the order of a row. -/
theorem Ordered.deleteFrom {row : RowData} (h : Ordered t row) (d : Deletion) :
    Ordered t (t.deleteFrom d row) := by
  cases row with
  | flat leaves => exact ⟨h.1, h.2.sublist List.filter_sublist⟩
  | grouped supers =>
    obtain ⟨hsuper, hsupers, hleaves⟩ := h
    rw [deleteFrom_grouped hsupers]
    refine ⟨hsuper, (hsupers.of_names ?_).sublist List.filter_sublist, fun e he => ?_⟩
    · rw [List.map_map]
      rfl
    · obtain ⟨e', he', rfl⟩ := List.mem_map.1 (List.mem_of_mem_filter he)
      exact (hleaves e' he').sublist (leavesLeft_sublist e')

theorem leaf?_flat_iff {leaves : Leaves} (h : Named t.comparator leaves) {name : Bytes}
    {leaf : Leaf} :
    (flat leaves).leaf? none name = some leaf ↔ (name, leaf) ∈ leaves :=
  h.lookup_eq_some_iff

theorem leaf?_grouped_iff (h : Ordered t (.grouped supers)) {superColumn name : Bytes}
    {leaf : Leaf} :
    (grouped supers).leaf? (some superColumn) name = some leaf ↔
      ∃ leaves, (superColumn, leaves) ∈ supers ∧ (name, leaf) ∈ leaves := by
  obtain ⟨-, hsupers, hleaves⟩ := h
  rw [leaf?, Option.bind_eq_some_iff]
  refine exists_congr fun leaves => ?_
  rw [hsupers.lookup_eq_some_iff]
  exact and_congr_right fun hmem => (hleaves _ hmem).lookup_eq_some_iff

/-- A deletion takes the leaves away that it addresses and shadows, and leaves all others. -/
theorem leaf?_deleteFrom {row : RowData} (h : Ordered t row) {superColumn : Option Bytes}
    {name : Bytes} {leaf : Leaf} : (t.deleteFrom d row).leaf? superColumn name = some leaf ↔
      row.leaf? superColumn name = some leaf ∧
        ¬(d.Addresses t row superColumn name ∧ leaf.Shadowed d.timestamp) := by
  -- both rows are searched by exact name, which needs both of them ordered
  have hleft := h.deleteFrom d
  cases row with
  | flat leaves =>
    cases superColumn with
    | none =>
      rw [Table.deleteFrom] at hleft ⊢
      rw [leaf?_flat_iff hleft.2, leaf?_flat_iff h.2]
      exact mem_delete_iff h.2
    | some superColumn => simp [Table.deleteFrom, leaf?]
  | grouped supers =>
    rw [deleteFrom_grouped h.2.1] at hleft ⊢
    cases superColumn with
    | none => simp [leaf?]
    | some superColumn =>
      rw [leaf?_grouped_iff hleft, leaf?_grouped_iff h]
      simp only [mem_supersLeft]
      constructor
      · rintro ⟨_, ⟨leaves, hmem, rfl, -⟩, hleaf⟩
        obtain ⟨hold, hkept⟩ := (mem_leavesLeft_iff h hmem).1 hleaf
        exact ⟨⟨leaves, hmem, hold⟩, hkept⟩
      · -- a super column with a leaf is not dropped
        rintro ⟨⟨leaves, hmem, hold⟩, hkept⟩
        have hleaf := (mem_leavesLeft_iff h hmem).2 ⟨hold, hkept⟩
        exact ⟨_, ⟨leaves, hmem, rfl, fun _ => List.ne_nil_of_mem hleaf⟩, hleaf⟩

/-- A deletion keeps the super columns it does not cover, and those in which it leaves leaves. -/
theorem leaves?_deleteFrom {row : RowData} (h : Ordered t row) {superColumn : Bytes} :
    ((t.deleteFrom d row).leaves? (some superColumn)).isSome = true ↔
      (row.leaves? (some superColumn)).isSome = true ∧ (d.Covers t superColumn →
        ∃ name leaf, (t.deleteFrom d row).leaf? (some superColumn) name = some leaf) := by
  have hleft := h.deleteFrom d
  cases row with
  | flat leaves => simp [Table.deleteFrom, leaves?]
  | grouped supers =>
    rw [deleteFrom_grouped h.2.1] at hleft ⊢
    simp only [leaf?_grouped_iff hleft, leaves?, Option.isSome_iff_exists, h.2.1.lookup_eq_some_iff,
      hleft.2.1.lookup_eq_some_iff, mem_supersLeft]
    constructor
    · -- a super column that stays and is covered has kept a leaf
      rintro ⟨_, old, hmem, rfl, hkept⟩
      refine ⟨⟨old, hmem⟩, fun hcovers => ?_⟩
      obtain ⟨⟨name, leaf⟩, hleaf⟩ := List.exists_mem_of_ne_nil _ (hkept hcovers)
      exact ⟨name, leaf, _, ⟨old, hmem, rfl, hkept⟩, hleaf⟩
    · -- a covered super column has a leaf left, so it is not dropped
      rintro ⟨⟨old, hmem⟩, hleaves⟩
      refine ⟨_, old, hmem, rfl, fun hcovers => ?_⟩
      obtain ⟨name, leaf, _, ⟨old', hmem', rfl, -⟩, hleaf⟩ := hleaves hcovers
      rw [h.2.1.eq_of_mem hmem hmem']
      exact List.ne_nil_of_mem hleaf

end RowData

/-! ## Stores -/

/-- Tables are sorted by name, rows by key, and what is in rows by names that decode. -/
structure RowsOrdered (s : Store) : Prop where
  ordered : Ordered s
  rows : ∀ name key t row, s.table name = .ok t → s.row? name key = some row → row.Ordered t

/-- Reachable states are ordered if all increments name super columns that decode. -/
theorem rowsOrdered_run {registry : Registry} {keyspace : KeyspaceDef} {operations : List Operation}
    (hnames : ∀ operation ∈ operations,
      operation.Allowed Table.SuperNameDecodes (ofKeyspace registry keyspace)) :
    ((ofKeyspace registry keyspace).run operations).RowsOrdered := by
  have hkept := Table.tableInvariant_wellFormed.run registry keyspace hnames
  refine ⟨ordered_run registry keyspace operations, fun name key t row ht hrow => ?_⟩
  have hwell : t.WellFormed := hkept.holds _ ((table_eq_ok_iff hkept.increasing).1 ht)
  exact .of_wellFormed (hwell.row ht row hrow)

/-- What a deletion in a row makes of a store. -/
structure Removes (s : Store) (name : String) (key : Bytes) (t : Table) (d : Deletion)
    (s' : Store) :
    Prop where
  /-- The leaves of the row that the deletion addresses and shadows are gone, and all others are
  there as they were. -/
  leaves : ∀ name' key' superColumn column leaf,
    s'.leaf? name' key' superColumn column = some leaf ↔
      s.leaf? name' key' superColumn column = some leaf ∧
        ¬(name' = name ∧ key' = key ∧ leaf.Shadowed d.timestamp ∧
          ∃ row, s.row? name key = some row ∧ d.Addresses t row superColumn column)
  /-- Super columns that the deletion covers are gone if it leaves no leaves in them. -/
  supers : ∀ name' key' superColumn, (s'.leaves? name' key' (some superColumn)).isSome = true ↔
    (s.leaves? name' key' (some superColumn)).isSome = true ∧
      (name' = name ∧ key' = key ∧ d.Covers t superColumn →
        ∃ column leaf, s'.leaf? name' key' (some superColumn) column = some leaf)
  /-- No row is gone, even if nothing is left in it, and none is new. -/
  rows : ∀ name' key', (s'.row? name' key').isSome = (s.row? name' key').isSome
  keyspace : s'.keyspace = s.keyspace
  outline : s'.outline = s.outline
  ordered : s'.RowsOrdered

section Delete

variable {s s' : Store} {name : String} {key : Bytes} {d : Deletion} {t : Table}

/-- A deletion changes one row. -/
theorem row?_delete (hs : Ordered s) (ht : s.table name = .ok t)
    (hd : s.write key name (.delete d) = .ok s') :
    s'.row? name key = (s.row? name key).map (t.deleteFrom d) ∧
      ∀ {name' key'}, ¬(name' = name ∧ key' = key) → s'.row? name' key' = s.row? name' key' := by
  obtain ⟨-, hrow⟩ := row?_write hs hd
  refine ⟨?_, fun hne => by rw [hrow, if_neg hne]⟩
  rw [hrow, if_pos ⟨rfl, rfl⟩, effect_of_table ht]
  rfl

theorem RowsOrdered.delete (hs : s.RowsOrdered) (ht : s.table name = .ok t)
    (hd : s.write key name (.delete d) = .ok s') : s'.RowsOrdered := by
  obtain ⟨hplace, hother⟩ := row?_delete hs.ordered ht hd
  refine ⟨(row?_write hs.ordered hd).1, fun name' key' t' row ht' hfound => ?_⟩
  obtain ⟨t₀, ht₀, hsame⟩ := table_of_outline (outline_write hs.ordered.tables hd).2.symm ht'
  refine RowData.Ordered.of_emptied (t := t₀) ?_ hsame
  by_cases hat : name' = name ∧ key' = key
  · obtain ⟨rfl, rfl⟩ := hat
    cases ht.symm.trans ht₀
    rw [hplace] at hfound
    obtain ⟨old, hold, rfl⟩ := Option.map_eq_some_iff.1 hfound
    exact (hs.rows _ _ _ _ ht hold).deleteFrom d
  · exact hs.rows _ _ _ _ ht₀ (hother hat ▸ hfound)

/-- In rows in order the leaves that a deletion addresses and shadows are gone, and all others are
there as they were. -/
theorem leaf?_delete (hs : s.RowsOrdered) (ht : s.table name = .ok t)
    (hd : s.write key name (.delete d) = .ok s') {name' : String} {key' : Bytes}
    {superColumn : Option Bytes} {column : Bytes} {leaf : Leaf} :
    s'.leaf? name' key' superColumn column = some leaf ↔
      s.leaf? name' key' superColumn column = some leaf ∧
        ¬(name' = name ∧ key' = key ∧ leaf.Shadowed d.timestamp ∧
          ∃ row, s.row? name key = some row ∧ d.Addresses t row superColumn column) := by
  obtain ⟨hplace, hother⟩ := row?_delete hs.ordered ht hd
  by_cases hat : name' = name ∧ key' = key
  · -- the row the deletion was for
    obtain ⟨rfl, rfl⟩ := hat
    rw [leaf?, leaf?, hplace]
    cases hfound : s.row? name' key' with
    | none => simp
    | some row =>
      have hleaf :=
        @RowData.leaf?_deleteFrom t d row (hs.rows _ _ _ _ ht hfound) superColumn column leaf
      simpa [and_comm] using hleaf
  · -- any other row is as it was
    rw [leaf?, leaf?, hother hat]
    exact ⟨fun h => ⟨h, fun hd => hat ⟨hd.1, hd.2.1⟩⟩, fun h => h.1⟩

/-- An accepted deletion removes exactly the leaves that it addresses and shadows, and the super
columns that it leaves without leaves. -/
theorem delete_removes_addressed (hs : s.RowsOrdered) (hd : s.write key name (.delete d) = .ok s') :
    ∃ t, s.table name = .ok t ∧ Removes s name key t d s' := by
  obtain ⟨t, ht, t', -, hs'⟩ := write_eq_ok.1 hd
  obtain ⟨hplace, hother⟩ := row?_delete hs.ordered ht hd
  refine ⟨t, ht, ⟨fun _ _ _ _ _ => leaf?_delete hs ht hd, fun name' key' superColumn => ?_,
    fun name' key' => ?_, hs' ▸ rfl, (outline_write hs.ordered.tables hd).2, hs.delete ht hd⟩⟩
  · -- super columns
    by_cases hat : name' = name ∧ key' = key
    · obtain ⟨rfl, rfl⟩ := hat
      simp only [leaf?, leaves?, hplace]
      cases hfound : s.row? name' key' with
      | none => simp
      | some row =>
        have hsuper := @RowData.leaves?_deleteFrom t d row (hs.rows _ _ _ _ ht hfound) superColumn
        simpa using hsuper
    · rw [leaves?, leaves?, hother hat]
      exact ⟨fun h => ⟨h, fun hd => absurd ⟨hd.1, hd.2.1⟩ hat⟩, fun h => h.1⟩
  · -- rows
    by_cases hat : name' = name ∧ key' = key
    · obtain ⟨rfl, rfl⟩ := hat
      rw [hplace, Option.isSome_map]
    · rw [hother hat]

end Delete

/-- A super table of opaque bytes. -/
def nestedKeyspace : KeyspaceDef :=
  (KeyspaceDef.ofName "Keyspace1").withTable
    { TableDef.ofName "Keyspace1" "Super1" with
      layout := .super, subcomparator := some "BytesType" }

/-- Three super columns in one row. -/
def threeSupers : List Operation :=
  [.batch (.push .empty [107] "Super1" (.insert (.superColumn [120] [⟨[97], [49], 1, none⟩]))),
    .batch (.push .empty [107] "Super1"
      (.insert (.superColumn [121] [⟨[97], [50], 2, none⟩, ⟨[98], [51], 9, none⟩]))),
    .batch (.push .empty [107] "Super1" (.insert (.superColumn [122] [⟨[97], [52], 3, none⟩])))]

/-- The deletion of the last two super columns, except for what is newer. -/
def lastTwo : Deletion := ⟨some 5, none, some (.ofRange ⟨[], [], true, 2⟩)⟩

theorem delete_removes_addressed_lastTwo :
    let s := (ofKeyspace .standard nestedKeyspace).run threeSupers
    ∃ t s', s.write [107] "Super1" (.delete lastTwo) = .ok s' ∧
      Removes s "Super1" [107] t lastTwo s' ∧
      s'.leaves? "Super1" [107] (some [120]) = some [([97], .cell [49] 1 none)] ∧
      s'.leaves? "Super1" [107] (some [121]) = some [([98], .cell [51] 9 none)] ∧
      s'.leaves? "Super1" [107] (some [122]) = none := by
  intro s
  -- every operation puts something, so no super column name comes in through an increment
  have hnames : ∀ operation ∈ threeSupers,
      operation.Allowed Table.SuperNameDecodes (ofKeyspace .standard nestedKeyspace) := by
    have hputs : ∀ operation ∈ threeSupers, ∀ e ∈ operation.writes, e.2.2.puts ≠ [] := by
      decide +kernel
    rintro operation hoperation key name w hw t -
    cases w with
    | increment => exact absurd rfl (hputs operation hoperation _ hw)
    | _ => trivial
  -- what is left of the three super columns, computed once
  have hleft : (fun s' : Store => [[120], [121], [122]].map fun superColumn =>
      s'.leaves? "Super1" [107] (some superColumn)) <$> s.write [107] "Super1" (.delete lastTwo) =
        .ok [some [([97], .cell [49] 1 none)], some [([98], .cell [51] 9 none)], none] := by
    decide +kernel
  obtain ⟨s', hs', hleaves⟩ := map_eq_ok.1 hleft
  obtain ⟨t, -, hremoves⟩ := delete_removes_addressed (rowsOrdered_run hnames) hs'
  simp only [List.map_cons, List.map_nil, List.cons.injEq, and_true] at hleaves
  exact ⟨t, s', hs', hremoves, hleaves⟩

end Store

end WideColumn
