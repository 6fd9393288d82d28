import WideColumn.Proofs.Query.Selection
import WideColumn.Proofs.Sorted.Lookup
import WideColumn.Proofs.Store.Representation

/-!
# Super columns without leaves

A deletion takes away the super columns it leaves without leaves. So no row has such super columns
as long as none is written, and then it makes no difference whether a deletion names a super column
as the place to delete from or selects it by name.

- `Table.Filled`: the super columns of a table have leaves;
- `filled_of_run`: all tables of a reachable state are filled if no super column was written without
  columns;
- `deleteFrom_superColumn`: the two deletions of a super column are the same.
-/

namespace WideColumn.Store

/-- The super columns of a row have leaves. -/
def RowData.Filled : RowData → Prop
  | .flat _ => True
  | .grouped supers => ∀ e ∈ supers, e.2 ≠ []

/-- The super columns of all rows of a table have leaves. -/
def Table.Filled (t : Table) : Prop := ∀ e ∈ t.rows, e.2.Filled

/-- A super column that is written has columns. -/
def Write.Fills : Write → Prop
  | .superColumn _ columns => columns ≠ []
  | .column _ | .increment .. | .delete _ => True

/-! ## Rows -/

namespace RowData

variable {t : Table} {row : RowData}

private theorem filled_freshRow (t : Table) : t.freshRow.Filled := by
  rw [Table.freshRow]
  split
  · intro entry hentry
    cases hentry
  · trivial

theorem Filled.onLeaves (h : row.Filled) (change : Leaves → Leaves) :
    (Table.onLeaves change row).Filled := by
  cases row with
  | flat leaves => trivial
  | grouped supers => exact h

theorem Filled.onSuper (h : row.Filled) (name : Bytes) {change : Leaves → Leaves}
    (hchange : ∀ leaves, change leaves ≠ []) : (t.onSuper name change row).Filled := by
  cases row with
  | flat leaves => trivial
  | grouped supers =>
    exact @Sorted.forall_mem_alter _ _ _ _ _ (· ≠ []) _ _ h (hchange []) fun leaves _ =>
      hchange leaves

/-! ## Deletions -/

/-- A deletion in a super column takes leaves away there, and the super column too if none is
left. -/
theorem deleteFrom_at {supers before after : Sorted Bytes Leaves} {k name : Bytes} {leaves : Leaves}
    {d : Deletion} (hd : d.superColumn = some name)
    (hindex : supers.index? t.order name = some before.length)
    (hsupers : supers = before ++ (k, leaves) :: after) :
    t.deleteFrom d (.grouped supers) =
      let left := leaves.delete t.suborder d.predicate d.timestamp
      .grouped (if left.isEmpty then before ++ after else before ++ (k, left) :: after) := by
  -- the super column stands right after `before`, so its place can be modified in sight
  have hmodify (f : Bytes × Leaves → Bytes × Leaves) :
      supers.modify before.length f = before ++ f (k, leaves) :: after := by
    rw [hsupers, List.modify_eq_take_cons_drop (by simp)]
    simp
  have hplace (x : Bytes × Leaves) : (before ++ x :: after)[before.length]? = some x := by simp
  simp only [Table.deleteFrom, hd, hindex, hmodify, hplace]
  cases leaves.delete t.suborder d.predicate d.timestamp with
  | nil =>
    show RowData.grouped (List.eraseIdx _ _) = .grouped (before ++ after)
    rw [List.eraseIdx_append_of_length_le (Nat.le_refl _), Nat.sub_self, List.eraseIdx_cons_zero]
  | cons => rfl

/-- Whatever a deletion leaves of a super column was there, in whichever order names stand. -/
theorem exists_deleteFrom (t : Table) (d : Deletion) (supers : Sorted Bytes Leaves) :
    ∃ left, t.deleteFrom d (.grouped supers) = .grouped left ∧
      ∀ e ∈ left, ∃ leaves, (e.1, leaves) ∈ supers ∧ e.2.Sublist leaves := by
  -- deleting only filters the leaves of a super column
  have hdelete : ∀ (leaves : Leaves) predicate,
      (leaves.delete t.suborder predicate d.timestamp).Sublist leaves :=
    fun _ _ => List.filter_sublist
  have hkept : ∀ e ∈ supers, ∃ leaves, (e.1, leaves) ∈ supers ∧ e.2.Sublist leaves :=
    fun e he => ⟨e.2, he, List.Sublist.refl _⟩
  cases hd : d.superColumn with
  | none =>
    simp only [Table.deleteFrom, hd]
    refine ⟨_, rfl, fun e he => ?_⟩
    obtain ⟨e', he', rfl⟩ := List.mem_map.1 (List.mem_of_mem_filter he)
    refine ⟨e'.2, he', ?_⟩
    show (if _ then _ else _ : Leaves).Sublist e'.2
    split
    · exact hdelete e'.2 none
    · exact List.Sublist.refl _
  | some name =>
    cases hindex : supers.index? t.order name with
    | none =>
      simp only [Table.deleteFrom, hd, hindex]
      exact ⟨supers, rfl, hkept⟩
    | some i =>
      obtain ⟨before, ⟨k, leaves⟩, after, rfl, rfl⟩ := Sorted.exists_of_index? hindex
      -- an emptied super column is dropped, any other stays with the leaves left in it
      rw [deleteFrom_at hd hindex rfl]
      refine ⟨_, rfl, fun e he => ?_⟩
      split at he
      · rcases List.mem_append.1 he with he | he
        · exact hkept e (List.mem_append_left _ he)
        · exact hkept e (List.mem_append_right _ (List.mem_cons_of_mem _ he))
      · rcases List.mem_append.1 he with he | he
        · exact hkept e (List.mem_append_left _ he)
        rcases List.mem_cons.1 he with rfl | he
        · exact ⟨leaves, List.mem_append_right _ List.mem_cons_self, hdelete leaves _⟩
        · exact hkept e (List.mem_append_right _ (List.mem_cons_of_mem _ he))

/-- A deletion leaves no super column without leaves. -/
theorem Filled.deleteFrom (h : row.Filled) (d : Deletion) : (t.deleteFrom d row).Filled := by
  cases row with
  | flat leaves => trivial
  | grouped supers =>
    cases hd : d.superColumn with
    | none =>
      simp only [Table.deleteFrom, hd]
      intro e he hnil
      have hkept := (List.mem_filter.1 he).2
      rw [hnil] at hkept
      cases hkept
    | some name =>
      cases hindex : supers.index? t.order name with
      | none =>
        simp only [Table.deleteFrom, hd, hindex]
        exact h
      | some i =>
        -- only the super column that is deleted from can be left without leaves, and then it is
        -- gone
        obtain ⟨before, ⟨k, leaves⟩, after, rfl, rfl⟩ := Sorted.exists_of_index? hindex
        rw [deleteFrom_at hd hindex rfl]
        intro e he
        split at he
        · rcases List.mem_append.1 he with he | he
          · exact h e (List.mem_append_left _ he)
          · exact h e (List.mem_append_right _ (List.mem_cons_of_mem _ he))
        · next hleft =>
          rcases List.mem_append.1 he with he | he
          · exact h e (List.mem_append_left _ he)
          rcases List.mem_cons.1 he with rfl | he
          · exact fun hnil => hleft (List.isEmpty_iff.2 hnil)
          · exact h e (List.mem_append_right _ (List.mem_cons_of_mem _ he))

/-- A name selects the super column that the search finds for it. -/
theorem selectedNames_of_index? {α : Type} {type : DataType} {before after : Sorted Bytes α}
    {k name : Bytes} {a : α} (hinc : Sorted.Increasing type.compare (before ++ (k, a) :: after))
    (hkeys : Sorted.Keys type.Accepts (before ++ (k, a) :: after))
    (hindex : Sorted.index? type.compare name (before ++ (k, a) :: after) = some before.length) :
    selectedNames type.compare (some (.ofNames [name])) (before ++ (k, a) :: after) = [k] := by
  have hordered := DataType.orderedOn_compare type
  have hplace : (before ++ (k, a) :: after)[before.length]? = some (k, a) := by simp
  have hk : (k, a) ∈ before ++ (k, a) :: after := List.mem_append_right _ List.mem_cons_self
  have hself : type.compare k k = .eq := hordered.self (hkeys _ hk)
  -- the search by name selects the one place, and only the entry there has the name `k`
  have hplaces : [name].filterMap (fun name => Sorted.index? type.compare name
      (before ++ (k, a) :: after)) = [before.length] := by
    rw [List.filterMap_cons, hindex]
    rfl
  have hselect : select type.compare (.ofNames [name]) (before ++ (k, a) :: after) =
      (before ++ (k, a) :: after).filter fun e => e.1 == k := by
    show List.map _ (List.filter _ _) = _
    rw [hplaces]
    refine filter_places _ _ _ fun i e he => ?_
    rw [Bool.eq_iff_iff, List.contains_iff_mem, List.mem_singleton, beq_iff_eq]
    constructor
    · rintro rfl
      cases hplace.symm.trans he
      rfl
    · -- entries at different places have different names
      intro hsame
      rcases Nat.lt_trichotomy i before.length with hlt | heq | hgt
      · have h := hinc.lt_of_lt he hplace hlt
        rw [hsame, hself] at h
        cases h
      · exact heq
      · have h := hinc.lt_of_lt hplace he hgt
        rw [hsame, hself] at h
        cases h
  rw [selectedNames, hselect, Sorted.filter_eq_of_lookup hinc hkeys hordered
    ((Sorted.lookup_eq_some_iff hinc hkeys hordered).2 hk)]
  rfl

/-- In a row whose super columns have leaves, deleting from a super column is the same as deleting
the super column that is selected by this name. -/
theorem deleteFrom_superColumn (hwell : WellFormed t row) (hfilled : row.Filled)
    (hsuper : t.isSuper = true) (name : Bytes) (timestamp : Option Int64) :
    t.deleteFrom ⟨timestamp, none, some (.ofNames [name])⟩ row =
      t.deleteFrom ⟨timestamp, some name, none⟩ row := by
  cases row with
  | flat leaves => cases hsuper.symm.trans hwell.1
  | grouped supers =>
    obtain ⟨-, hinc, hkeys, -⟩ := hwell
    -- By its name a super column is emptied and then dropped with all empty ones, so the others
    -- must have leaves to stay.
    have hkeep : ∀ {supers' : Sorted Bytes Leaves}, supers'.Sublist supers →
        supers'.filter (fun e => !e.2.isEmpty) = supers' := by
      intro supers' hsub
      refine List.filter_eq_self.2 fun e he => ?_
      simpa using hfilled e (hsub.subset he)
    cases hindex : supers.index? t.order name with
    | none =>
      have hdoomed : selectedNames t.order (some (.ofNames [name])) supers = [] := by
        have hplaces : [name].filterMap (fun name => supers.index? t.order name) = [] := by
          rw [List.filterMap_cons, hindex]
          rfl
        show (List.map _ (List.filter _ _)).map _ = []
        simp [hplaces]
      have hsame : supers.map (fun e => (e.1,
          if ([] : List Bytes).contains e.1 then e.2.delete t.suborder none timestamp else e.2)) =
            supers :=
        List.map_id' supers
      simp only [Table.deleteFrom, hdoomed, hindex, hsame, hkeep (List.Sublist.refl supers)]
    | some i =>
      obtain ⟨before, ⟨k, leaves⟩, after, rfl, rfl⟩ := Sorted.exists_of_index? hindex
      rw [deleteFrom_at (d := ⟨timestamp, some name, none⟩) rfl hindex rfl]
      have hdoomed : selectedNames t.order (some (.ofNames [name]))
          (before ++ (k, leaves) :: after) =
          [k] :=
        selectedNames_of_index? hinc hkeys hindex
      obtain ⟨hbefore, hafter⟩ := hinc.ne_of_split hkeys (DataType.orderedOn_compare t.comparator)
      have hother : ∀ {others : Sorted Bytes Leaves}, (∀ e ∈ others, e.1 ≠ k) →
          others.map (fun e => (e.1,
            if [k].contains e.1 then e.2.delete t.suborder none timestamp else e.2)) = others := by
        intro others hne
        refine (List.map_congr_left fun e he => ?_).trans (List.map_id others)
        have hfalse : [k].contains e.1 = false := by simpa using hne e he
        rw [hfalse]
        rfl
      have hself : [k].contains k = true := by simp
      simp only [Table.deleteFrom, hdoomed, List.map_append, List.map_cons, List.filter_append,
        List.filter_cons, hself, if_true, hother hbefore, hother hafter]
      rw [hkeep (List.sublist_append_left _ _),
        hkeep ((List.sublist_cons_self _ _).trans (List.sublist_append_right _ _))]
      cases (leaves.delete t.suborder none timestamp).isEmpty <;> rfl

end RowData

/-! ## Reachable states -/

theorem Leaves.foldl_put_ne_nil (order : Bytes → Bytes → Ordering) {columns : List Column}
    (hcolumns : columns ≠ []) (leaves : Leaves) :
    columns.foldl (fun leaves c => leaves.put order c) leaves ≠ [] := by
  rw [← List.dropLast_concat_getLast hcolumns, List.foldl_concat]
  exact Sorted.alter_ne_nil _ _ _ _ _

namespace Table

theorem Filled.alterRow {t : Table} (h : t.Filled) (key : Bytes) {change : RowData → RowData}
    (hchange : ∀ row, row.Filled → (change row).Filled) : (t.alterRow key change).Filled :=
  Sorted.forall_mem_alter h (hchange _ (RowData.filled_freshRow t)) hchange

theorem Filled.write {t t' : Table} (h : t.Filled) {key : Bytes} {w : Write} (hfills : w.Fills)
    (hw : t.write key w = .ok t') : t'.Filled := by
  cases w with
  | column c =>
    obtain ⟨-, -, -, -, rfl⟩ := putColumn_eq_ok.1 hw
    exact h.alterRow key fun row hrow => hrow.onLeaves _
  | superColumn name columns =>
    obtain ⟨-, -, -, -, -, rfl⟩ := putSuper_eq_ok.1 hw
    exact h.alterRow key fun row hrow => hrow.onSuper name (Leaves.foldl_put_ne_nil _ hfills)
  | increment superColumn c =>
    obtain ⟨-, -, -, -, rfl⟩ := increment_eq_ok.1 hw
    cases superColumn with
    | none => exact h.alterRow key fun row hrow => hrow.onLeaves _
    | some name =>
      exact h.alterRow key fun row hrow => hrow.onSuper name fun leaves =>
        Sorted.alter_ne_nil _ _ _ _ _
  | delete d =>
    obtain ⟨-, rfl⟩ := delete_eq_ok.1 hw
    cases hrow : t.row? key with
    | none => exact h
    | some row =>
      obtain ⟨k, hmem⟩ := Sorted.mem_of_find? hrow
      exact Sorted.forall_mem_set h ((h _ hmem).deleteFrom d)

/-- A super column is deleted in the same way from its place and by its name. -/
theorem delete_superColumn {t : Table} (hwell : t.WellFormed) (hfilled : t.Filled)
    (hsuper : t.isSuper = true) (key name : Bytes) (timestamp : Option Int64) :
    t.delete key ⟨timestamp, some name, none⟩ =
      t.delete key ⟨timestamp, none, some (.ofNames [name])⟩ := by
  have hcheck : t.checkParent (some name) = .ok () := checkParent_eq_ok.2 fun _ => hsuper
  rw [delete, delete, hcheck]
  cases hrow : t.row? key with
  | none => rfl
  | some row =>
    obtain ⟨k, hmem⟩ := Sorted.mem_of_find? hrow
    show Except.ok _ = Except.ok _
    -- both forms put the row that is left in place, so only the rows have to agree
    rw [RowData.deleteFrom_superColumn (hwell.rows _ hmem) (hfilled _ hmem) hsuper]

private theorem tableInvariant_filled : TableInvariant (fun _ w => w.Fills) Filled where
  emptied _ := nofun
  write h hfills hw := h.write hfills hw

end Table

/-- If no super column is written without columns, none is without leaves in any reachable state. -/
theorem filled_of_run {registry : Registry} {keyspace : KeyspaceDef} {history : List Operation}
    (hfills : ∀ operation ∈ history, ∀ key name w, (key, name, w) ∈ operation.writes → w.Fills)
    {name : String} {t : Table}
    (ht : ((ofKeyspace registry keyspace).run history).table name = .ok t) :
    t.Filled := by
  have hkept := @TableInvariant.run _ _ Table.tableInvariant_filled registry keyspace history
    fun operation hmem key name w hw _ _ => hfills operation hmem key name w hw
  exact hkept.holds (name, t) ((table_eq_ok_iff hkept.increasing).1 ht)

end WideColumn.Store
