import WideColumn.Proofs.Store.Supers

/-!
# Leaves in reachable states

An increment may name a super column that does not decode, and then the super columns of its row are
no longer in order. The leaves in them are not affected: whatever is written, they stand in the
order of their names and are of the kind of their table.

- `RowData.LeavesWellFormed`, `Table.LeavesWellFormed`: the leaves are well formed, whatever the
  names of super columns are;
- `leavesWellFormed_of_run`: so they are in every reachable state.
-/

namespace WideColumn.Store

/-- A row has the layout of its table, and the leaves at its top or in each of its super columns are
well formed. -/
def RowData.LeavesWellFormed (t : Table) : RowData → Prop
  | .flat leaves => t.isSuper = false ∧ Leaves.WellFormed t.comparator t.holdsCounters leaves
  | .grouped supers => t.isSuper = true ∧
      ∀ e ∈ supers, Leaves.WellFormed t.subcomparator t.holdsCounters e.2

/-- The leaves of all rows of a table are well formed. -/
def Table.LeavesWellFormed (t : Table) : Prop := ∀ e ∈ t.rows, e.2.LeavesWellFormed t

namespace RowData.LeavesWellFormed

variable {t : Table} {row : RowData} {change : Leaves → Leaves}

theorem fresh (t : Table) : t.freshRow.LeavesWellFormed t := by
  rw [Table.freshRow]
  split
  · next hsuper => exact ⟨hsuper, List.forall_mem_nil _⟩
  · next hsuper => exact ⟨by simpa using hsuper, Leaves.wellFormed_nil⟩

theorem onLeaves (h : row.LeavesWellFormed t)
    (hchange : ∀ leaves, Leaves.WellFormed t.comparator t.holdsCounters leaves →
      Leaves.WellFormed t.comparator t.holdsCounters (change leaves)) :
    (Table.onLeaves change row).LeavesWellFormed t := by
  cases row with
  | flat leaves => exact ⟨h.1, hchange leaves h.2⟩
  | grouped supers => exact h

theorem onSuper (h : row.LeavesWellFormed t) (name : Bytes)
    (hchange : ∀ leaves, Leaves.WellFormed t.subcomparator t.holdsCounters leaves →
      Leaves.WellFormed t.subcomparator t.holdsCounters (change leaves)) :
    (t.onSuper name change row).LeavesWellFormed t := by
  cases row with
  | flat leaves => exact h
  | grouped supers =>
    exact ⟨h.1, Sorted.forall_mem_alter h.2 (hchange [] Leaves.wellFormed_nil) hchange⟩

/-- A deletion leaves fewer leaves, in their order. -/
theorem deleteFrom (h : row.LeavesWellFormed t) (d : Deletion) :
    (t.deleteFrom d row).LeavesWellFormed t := by
  cases row with
  | flat leaves => exact ⟨h.1, h.2.delete _ _ _⟩
  | grouped supers =>
    obtain ⟨left, hleft, hsub⟩ := exists_deleteFrom t d supers
    rw [hleft]
    refine ⟨h.1, fun e he => ?_⟩
    obtain ⟨leaves, hleaves, hsub⟩ := hsub e he
    exact (h.2 _ hleaves).sublist hsub

end RowData.LeavesWellFormed

namespace Table

theorem LeavesWellFormed.alterRow {t : Table} (h : t.LeavesWellFormed) (key : Bytes)
    {change : RowData → RowData}
    (hchange : ∀ row, row.LeavesWellFormed t → (change row).LeavesWellFormed t) :
    (t.alterRow key change).LeavesWellFormed :=
  Sorted.forall_mem_alter h (hchange _ (.fresh t)) hchange

/-- An accepted write keeps leaves well formed, whichever super column it names. -/
theorem LeavesWellFormed.write {t t' : Table} (h : t.LeavesWellFormed) {key : Bytes} {w : Write}
    (hw : t.write key w = .ok t') : t'.LeavesWellFormed := by
  -- The names of leaves are checked by all writes.
  cases w with
  | column c =>
    obtain ⟨hcells, -, ⟨⟨-, hname⟩, -⟩, -, rfl⟩ := putColumn_eq_ok.1 hw
    refine h.alterRow key fun row hrow => hrow.onLeaves fun leaves hleaves => ?_
    rw [hcells] at hleaves ⊢
    exact hleaves.put hname
  | superColumn name columns =>
    obtain ⟨hcells, -, -, hcolumns, -, rfl⟩ := putSuper_eq_ok.1 hw
    refine h.alterRow key fun row hrow => hrow.onSuper name fun leaves hleaves => ?_
    rw [hcells] at hleaves ⊢
    exact hleaves.foldl_put fun c hc => (hcolumns c hc).1.2
  | increment superColumn c =>
    obtain ⟨hcounters, hsuper, ⟨-, hname⟩, -, rfl⟩ := increment_eq_ok.1 hw
    cases superColumn with
    | none =>
      rw [leafComparator, hsuper, Option.isSome_none, if_neg Bool.false_ne_true] at hname
      refine h.alterRow key fun row hrow => hrow.onLeaves fun leaves hleaves => ?_
      rw [hcounters] at hleaves ⊢
      exact hleaves.increment hname
    | some name =>
      rw [leafComparator, hsuper, Option.isSome_some, if_pos rfl] at hname
      refine h.alterRow key fun row hrow => hrow.onSuper name fun leaves hleaves => ?_
      rw [hcounters] at hleaves ⊢
      exact hleaves.increment hname
  | delete d =>
    obtain ⟨-, rfl⟩ := delete_eq_ok.1 hw
    cases hrow : t.row? key with
    | none => exact h
    | some row =>
      obtain ⟨k, hmem⟩ := Sorted.mem_of_find? hrow
      exact Sorted.forall_mem_set h ((h _ hmem).deleteFrom d)

end Table

/-- Whatever is written, leaves are well formed. -/
theorem leavesWellFormed_of_run {registry : Registry} {keyspace : KeyspaceDef}
    {history : List Operation} {name : String} {t : Table}
    (ht : ((ofKeyspace registry keyspace).run history).table name = .ok t) :
    t.LeavesWellFormed := by
  have hinvariant : TableInvariant (fun _ _ => True) Table.LeavesWellFormed :=
    ⟨fun _ => nofun, fun h _ hw => h.write hw⟩
  have hkept := @TableInvariant.run _ _ hinvariant registry keyspace history
    fun _ _ _ _ _ _ _ _ => trivial
  exact hkept.holds (name, t) ((table_eq_ok_iff hkept.increasing).1 ht)

end WideColumn.Store
