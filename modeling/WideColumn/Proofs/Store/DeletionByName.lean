import WideColumn.Proofs.Store.Convergence
import WideColumn.Proofs.Store.Deletion

/-!
# Deletions by name

A deletion that lists names takes away what it would take away for each of them alone. So several
deletions with one name each are one deletion with all of them.

- `Deletion.ofNames`: the deletion of what a list of names selects;
- `Deletion.Names`: whether a name is that of a leaf, or that of its super column;
- `RowData.deleteFrom_ofNames`: in a row the names can be deleted one after the other;
- `writeAll_ofNames`: and in a store too.
-/

namespace WideColumn

/-- The deletion of what a list of names selects. -/
def Deletion.ofNames (timestamp : Option Int64) (superColumn : Option Bytes) (names : List Bytes) :
    Deletion :=
  ⟨timestamp, superColumn, some (.ofNames names)⟩

/-- Whether a name of a deletion is about a leaf. In a flat row, and in a super column that the
deletion names, it is the name of the leaf, and otherwise that of its super column. -/
def Deletion.Names (t : Store.Table) (given superColumn : Option Bytes) (column name : Bytes) :
    Prop :=
  match superColumn, given with
  | none, _ => t.order column name = .eq
  | some superColumn, none => t.order superColumn name = .eq
  | some superColumn, some given =>
    t.order superColumn given = .eq ∧ t.suborder column name = .eq

namespace Store

/-! ## Rows -/

namespace RowData

variable {t : Table} {row : RowData} {timestamp : Option Int64} {given superColumn : Option Bytes}
  {column : Bytes} {names : List Bytes} {leaf : Leaf}

/-- The leaves that a list of names addresses are told without a look at the others. -/
theorem addresses_ofNames_iff (h : Ordered t row)
    (hleaf : row.leaf? superColumn column = some leaf) :
    (Deletion.ofNames timestamp given names).Addresses t row superColumn column ↔
      ∃ name ∈ names, Deletion.Names t given superColumn column name := by
  cases row with
  | flat leaves =>
    cases superColumn with
    | none => simp [Deletion.Addresses, Deletion.ofNames, SlicePredicate.ofNames,
        SlicePredicate.Selects, Deletion.Names]
    | some superColumn => cases hleaf
  | grouped supers =>
    cases superColumn with
    | none => cases hleaf
    | some superColumn =>
      -- the super column is there, for it has the leaf
      obtain ⟨leaves, hmem, -⟩ := (leaf?_grouped_iff h).1 hleaf
      cases given with
      | none => simp [Deletion.Addresses, Deletion.ofNames, SlicePredicate.ofNames,
          SlicePredicate.Selects, Deletion.Names, Deletion.Covers]
      | some given =>
        have hsome : ∃ leaves, (superColumn, leaves) ∈ supers := ⟨leaves, hmem⟩
        simp only [Deletion.Addresses, Deletion.Covers, Deletion.ofNames, SlicePredicate.ofNames,
          SlicePredicate.Selects, Deletion.Names, Option.mem_def, Option.some.injEq, forall_eq',
          exists_and_right, hsome, true_and]
        constructor
        · rintro ⟨hsame, name, hname, horder⟩
          exact ⟨name, hname, hsame, horder⟩
        · rintro ⟨name, hname, hsame, horder⟩
          exact ⟨hsame, name, hname, horder⟩

private theorem leaf?_deleteFrom_ofNames (h : Ordered t row) :
    (t.deleteFrom (.ofNames timestamp given names) row).leaf? superColumn column = some leaf ↔
      row.leaf? superColumn column = some leaf ∧
        ¬((∃ name ∈ names, Deletion.Names t given superColumn column name) ∧
          leaf.Shadowed timestamp) := by
  rw [leaf?_deleteFrom h]
  refine and_congr_right fun hleaf => ?_
  rw [addresses_ofNames_iff h hleaf]
  rfl

/-- A deletion leaves a flat row flat. -/
theorem leaves?_none_deleteFrom (h : Ordered t row) (d : Deletion) :
    ((t.deleteFrom d row).leaves? none).isSome = (row.leaves? none).isSome := by
  cases row with
  | flat leaves => rfl
  | grouped supers =>
    rw [deleteFrom_grouped h.2.1]
    rfl

/-- The first name can be deleted before the others. -/
theorem deleteFrom_ofNames_cons (h : WellFormed t row) (name : Bytes) :
    t.deleteFrom (.ofNames timestamp given (name :: names)) row =
      t.deleteFrom (.ofNames timestamp given names)
        (t.deleteFrom (.ofNames timestamp given [name]) row) := by
  have hordered : Ordered t row := .of_wellFormed h
  have hfirst := hordered.deleteFrom (.ofNames timestamp given [name])
  -- both ways leave the same leaves
  have hleaf : ∀ superColumn column leaf,
      (t.deleteFrom (.ofNames timestamp given (name :: names)) row).leaf? superColumn column =
        some leaf ↔
      (t.deleteFrom (.ofNames timestamp given names)
        (t.deleteFrom (.ofNames timestamp given [name]) row)).leaf? superColumn column =
          some leaf := by
    intro superColumn column leaf
    rw [leaf?_deleteFrom_ofNames hordered, leaf?_deleteFrom_ofNames hfirst,
      leaf?_deleteFrom_ofNames hordered]
    simp only [List.exists_mem_cons_iff, List.not_mem_nil, false_and, exists_false, or_false]
    rw [or_and_right, not_or, and_assoc]
  refine RowData.eq_of_leaf? (h.deleteFrom _) ((h.deleteFrom _).deleteFrom _)
    ?_ fun superColumn column =>
    Option.ext (hleaf superColumn column)
  rintro (_ | superColumn)
  · rw [leaves?_none_deleteFrom hordered, leaves?_none_deleteFrom hfirst,
      leaves?_none_deleteFrom hordered]
  · -- the super columns that keep leaves in the end have kept some before
    rw [Bool.eq_iff_iff, leaves?_deleteFrom hordered, leaves?_deleteFrom hfirst,
      leaves?_deleteFrom hordered]
    simp only [hleaf]
    constructor
    · rintro ⟨hsome, hkept⟩
      refine ⟨⟨hsome, fun hcovers => ?_⟩, hkept⟩
      obtain ⟨column, leaf, hleft⟩ := hkept hcovers
      exact ⟨column, leaf, ((leaf?_deleteFrom hfirst).1 hleft).1⟩
    · rintro ⟨⟨hsome, -⟩, hkept⟩
      exact ⟨hsome, hkept⟩

/-- Deleting names is deleting them one after the other. -/
theorem deleteFrom_ofNames (hnames : names ≠ []) :
    ∀ {row : RowData}, WellFormed t row →
      t.deleteFrom (.ofNames timestamp given names) row =
        names.foldl (fun row name => t.deleteFrom (.ofNames timestamp given [name]) row) row := by
  -- By induction on the names, of which there is at least one.
  induction names with
  | nil => exact absurd rfl hnames
  | cons name names ih =>
    intro row h
    cases names with
    | nil => rfl
    | cons name' names =>
      rw [deleteFrom_ofNames_cons h, ih (List.cons_ne_nil _ _) (h.deleteFrom _)]
      rfl

end RowData

/-! ## Stores -/

variable {s : Store} {table : String} {t : Table} {given : Option Bytes} {names : List Bytes}

private theorem foldl_effect_delete (t : Table) (timestamp : Option Int64) (given : Option Bytes)
    (names : List Bytes) (row : Option RowData) :
    (names.map fun name => Write.delete (.ofNames timestamp given [name])).foldl
        (fun row w => t.effect w row) row =
      row.map fun data =>
        names.foldl (fun data name => t.deleteFrom (.ofNames timestamp given [name]) data)
        data := by
  induction names generalizing row with
  | nil => simp
  | cons name names ih =>
    rw [List.map_cons, List.foldl_cons, ih]
    cases row <;> rfl

/-- Names that are deleted one after the other are deleted together. -/
theorem writeAll_ofNames (key : Bytes) (timestamp : Option Int64) (hs : s.Ordered)
    (ht : s.table table = .ok t) (hwell : t.WellFormed)
    (hlayout : given.isSome = true → t.isSuper = true) (hnames : names ≠ []) :
    writeAll (names.map fun name => (key, table, .delete (.ofNames timestamp given [name]))) s =
      writeAll [(key, table, .delete (.ofNames timestamp given names))] s := by
  have hverdict : ∀ names, s.verdict (key, table, .delete (.ofNames timestamp given names)) =
      .ok () := by
    intro names
    obtain ⟨t', ht'⟩ : ∃ t', t.delete key (.ofNames timestamp given names) = .ok t' :=
      ⟨_, Table.delete_eq_ok.2 ⟨hlayout, rfl⟩⟩
    exact verdict_of_write (write_eq_ok.2 ⟨t, ht, t', ht', rfl⟩)
  refine writeAll_eq_of_effect hs ?_ ?_ fun table' key' => ?_
  · rw [writeAll_ok_iff hs.tables, List.forall_mem_singleton]
    exact hverdict names
  · rw [writeAll_ok_iff hs.tables, List.forall_mem_map]
    exact fun name _ => hverdict [name]
  · have hsingles :
        (names.map fun name => (key, table, Write.delete (.ofNames timestamp given [name]))) =
        (names.map fun name => Write.delete (.ofNames timestamp given [name])).map fun w =>
          (key, table, w) := by
      rw [List.map_map]
      rfl
    have hall : [(key, table, Write.delete (.ofNames timestamp given names))] =
        [Write.delete (.ofNames timestamp given names)].map fun w => (key, table, w) := rfl
    rw [hsingles, hall, writesTo_map, writesTo_map]
    by_cases hkey : key = key'
    · by_cases htable : table = table'
      · subst hkey htable
        simp only [if_true, effect_of_table ht]
        rw [foldl_effect_delete]
        show _ = (s.row? table key).map (t.deleteFrom _)
        -- all rows of the table are well formed
        cases hrow : s.row? table key with
        | none => rfl
        | some row =>
          exact congrArg some (RowData.deleteFrom_ofNames hnames (hwell.row ht row hrow)).symm
      · rw [if_pos hkey, if_neg htable, if_pos hkey, if_neg htable]
    · rw [if_neg hkey, if_neg hkey]

end Store

end WideColumn
