import WideColumn.Proofs.Store.Counters
import WideColumn.Proofs.Store.DeletionByName

/-!
# What a row holds

A leaf that a row holds stands at the top of the row or in one of its super columns, in whichever
order these stand. So a deletion by name can be followed without knowing that the row is in order:
what it does not name it leaves, and it adds nothing.

- `RowData.Holds` and `Store.Holds`: the leaves of a row and of a store;
- `RowData.Holds.deleteFrom_ofNames`: a leaf that a deletion does not name stays;
- `RowData.Holds.of_deleteFrom`: a leaf that is there after a deletion was there before;
- `Store.Holds.delete`, `Store.Holds.of_delete`: the same for a store;
- `Store.holds_delete_iff`: in rows in order what a deletion addresses and shadows is gone, and
  nothing else.
-/

namespace WideColumn.Store

/-! ## Leaves of a row -/

/-- A row holds a leaf of a name, at the top or in a super column. -/
inductive RowData.Holds : RowData → Option Bytes → Bytes → Leaf → Prop where
  | flat {leaves : Leaves} {name : Bytes} {leaf : Leaf} (hleaf : (name, leaf) ∈ leaves) :
      Holds (.flat leaves) none name leaf
  | grouped {supers : Sorted Bytes Leaves} {superColumn name : Bytes} {leaves : Leaves}
      {leaf : Leaf}
      (hsuper : (superColumn, leaves) ∈ supers) (hleaf : (name, leaf) ∈ leaves) :
      Holds (.grouped supers) (some superColumn) name leaf

/-- A store holds a leaf at an address. -/
def Holds (s : Store) (a : Address) (leaf : Leaf) : Prop :=
  ∃ row, s.row? a.table a.key = some row ∧ row.Holds a.superColumn a.column leaf

section Names

variable {α : Type} {order : Bytes → Bytes → Ordering} {names : List Bytes}
  {entries : Sorted Bytes α} {name : Bytes}

/-- A list of names selects none but names that compare equal to one of its own. -/
theorem exists_of_mem_selectedNames
    (h : name ∈ selectedNames order (some (.ofNames names)) entries) :
    ∃ listed ∈ names, order name listed = .eq := by
  obtain ⟨e, he, rfl⟩ := List.mem_map.1 h
  obtain ⟨⟨e, i⟩, hmem, rfl⟩ := List.mem_map.1 he
  obtain ⟨hplace, hselected⟩ := List.mem_filter.1 hmem
  obtain ⟨listed, hlisted, hindex⟩ := List.mem_filterMap.1 (List.contains_iff_mem.1 hselected)
  obtain ⟨e', he', heq⟩ := Sorted.eq_of_index? hindex
  rw [List.mem_zipIdx_iff_getElem?] at hplace
  cases hplace.symm.trans he'
  exact ⟨listed, hlisted, heq⟩

/-- The entry at a place that was found has a name that compares equal. -/
theorem order_of_index? {before after : Sorted Bytes α} {k : Bytes} {v : α}
    (h : Sorted.index? order name (before ++ (k, v) :: after) = some before.length) :
    order k name = .eq := by
  obtain ⟨e, he, heq⟩ := Sorted.eq_of_index? h
  rw [List.getElem?_append_right (Nat.le_refl _), Nat.sub_self] at he
  cases he
  exact heq

end Names

/-- A leaf that no name of a deletion is equal to is not deleted. -/
theorem Leaves.mem_delete_ofNames {order : Bytes → Bytes → Ordering} {names : List Bytes}
    {leaves : Leaves} {name : Bytes} {leaf : Leaf} (h : (name, leaf) ∈ leaves)
    (hother : ∀ listed ∈ names, order name listed ≠ .eq) (deletedAt : Option Int64) :
    (name, leaf) ∈ leaves.delete order (some (.ofNames names)) deletedAt := by
  refine List.mem_filter.2 ⟨h, ?_⟩
  have hkept : name ∉ selectedNames order (some (.ofNames names)) leaves := by
    intro hselected
    obtain ⟨listed, hlisted, heq⟩ := exists_of_mem_selectedNames hselected
    exact hother listed hlisted heq
  have hfalse : (selectedNames order (some (.ofNames names)) leaves).contains name = false := by
    rwa [Bool.eq_false_iff, ne_eq, List.contains_iff_mem]
  simp only [hfalse, Bool.false_and, Bool.not_false]

namespace RowData

variable {t : Table} {row : RowData} {superColumn given : Option Bytes} {column : Bytes}
  {leaf : Leaf} {names : List Bytes} {timestamp : Option Int64}

/-- In a row in order a leaf is held where it is found. -/
theorem holds_iff_leaf? (h : Ordered t row) :
    row.Holds superColumn column leaf ↔ row.leaf? superColumn column = some leaf := by
  cases row with
  | flat leaves =>
    cases superColumn with
    | none =>
      rw [leaf?_flat_iff h.2]
      exact ⟨fun hholds => by cases hholds; assumption, .flat⟩
    | some superColumn => exact ⟨nofun, nofun⟩
  | grouped supers =>
    cases superColumn with
    | none => exact ⟨nofun, nofun⟩
    | some superColumn =>
      rw [leaf?_grouped_iff h]
      constructor
      · rintro (_ | ⟨hsuper, hleaf⟩)
        exact ⟨_, hsuper, hleaf⟩
      · rintro ⟨leaves, hsuper, hleaf⟩
        exact .grouped hsuper hleaf

/-- What is left after a deletion was there before. -/
theorem Holds.of_deleteFrom {d : Deletion}
    (h : (t.deleteFrom d row).Holds superColumn column leaf) :
    row.Holds superColumn column leaf := by
  cases row with
  | flat leaves =>
    cases h with
    | flat hleaf => exact .flat (List.mem_of_mem_filter hleaf)
  | grouped supers =>
    obtain ⟨left, hleft, hsub⟩ := exists_deleteFrom t d supers
    rw [hleft] at h
    cases h with
    | grouped hsuper hleaf =>
      obtain ⟨leaves, hsuper', hleaves⟩ := hsub _ hsuper
      exact .grouped hsuper' (hleaves.subset hleaf)

/-- A super column that keeps leaves stays between the others. -/
theorem holds_of_left {before after : Sorted Bytes Leaves} {k : Bytes} {left : Leaves}
    (h : (grouped (before ++ after)).Holds superColumn column leaf ∨
      superColumn = some k ∧ (column, leaf) ∈ left) :
    (grouped (if left.isEmpty then before ++ after else before ++ (k, left) :: after)).Holds
      superColumn column leaf := by
  -- a super column that was emptied is dropped, and then nothing was left in it
  split
  · next hempty =>
    rw [List.isEmpty_iff] at hempty
    subst hempty
    exact h.resolve_right fun hleaf => List.not_mem_nil hleaf.2
  · rcases h with (_ | ⟨hsuper, hleaf⟩) | ⟨rfl, hleaf⟩
    · refine .grouped ?_ hleaf
      rw [List.mem_append, List.mem_cons]
      exact (List.mem_append.1 hsuper).imp_right .inr
    · exact .grouped (List.mem_append_right _ List.mem_cons_self) hleaf

/-- What a deletion by names does not name is left, in whichever order names stand. -/
theorem Holds.deleteFrom_ofNames (h : row.Holds superColumn column leaf)
    (hother : ∀ name ∈ names, ¬Deletion.Names t given superColumn column name) :
    (t.deleteFrom (.ofNames timestamp given names) row).Holds superColumn column leaf := by
  cases h with
  | flat hleaf => exact .flat (Leaves.mem_delete_ofNames hleaf hother timestamp)
  | @grouped supers superColumn _ leaves _ hsuper hleaf =>
    cases given with
    | none =>
      -- The super column is not selected, and it is not dropped because it has the leaf.
      have hkept : (selectedNames t.order (some (.ofNames names)) supers).contains superColumn =
          false := by
        rw [Bool.eq_false_iff, ne_eq, List.contains_iff_mem]
        intro hselected
        obtain ⟨name, hname, heq⟩ := exists_of_mem_selectedNames hselected
        exact hother name hname heq
      have hnonempty : leaves.isEmpty = false :=
        List.isEmpty_eq_false_iff.2 (List.ne_nil_of_mem hleaf)
      have hstays : (superColumn, leaves) ∈ (supers.map fun e => (e.1,
          if (selectedNames t.order (some (.ofNames names)) supers).contains e.1 then
            e.2.delete t.suborder none timestamp else e.2)).filter fun e => !e.2.isEmpty := by
        refine List.mem_filter.2
          ⟨List.mem_map.2 ⟨_, hsuper, ?_⟩, by simp only [hnonempty, Bool.not_false]⟩
        exact congrArg (Prod.mk superColumn) (if_neg (Bool.eq_false_iff.1 hkept))
      exact .grouped hstays hleaf
    | some given =>
      cases hindex : supers.index? t.order given with
      | none =>
        simp only [Table.deleteFrom, Deletion.ofNames, hindex]
        exact .grouped hsuper hleaf
      | some i =>
        obtain ⟨before, ⟨k, found⟩, after, rfl, rfl⟩ := Sorted.exists_of_index? hindex
        have hk : t.order k given = .eq := order_of_index? hindex
        rw [deleteFrom_at rfl hindex rfl]
        -- The super column that is found keeps the leaf, and the others are not touched.
        rcases List.mem_append.1 hsuper with hsuper | hsuper
        · exact holds_of_left (.inl (.grouped (List.mem_append_left _ hsuper) hleaf))
        · rcases List.mem_cons.1 hsuper with heq | hsuper
          · cases heq
            refine holds_of_left (.inr ⟨rfl, Leaves.mem_delete_ofNames hleaf ?_ timestamp⟩)
            exact fun name hname heq => hother name hname ⟨hk, heq⟩
          · exact holds_of_left (.inl (.grouped (List.mem_append_right _ hsuper) hleaf))

end RowData

/-! ## Leaves of a store -/

section Delete

variable {s s' : Store} {table : String} {key : Bytes} {d : Deletion} {a : Address} {leaf : Leaf}
  {t : Table} {given : Option Bytes} {names : List Bytes} {timestamp : Option Int64}

/-- A deletion adds nothing. -/
theorem Holds.of_delete (h : s'.Holds a leaf) (hs : s.Ordered) (ht : s.table table = .ok t)
    (hd : s.write key table (.delete d) = .ok s') : s.Holds a leaf := by
  obtain ⟨hplace, hother⟩ := row?_delete hs ht hd
  obtain ⟨row, hrow, hleaf⟩ := h
  by_cases hat : a.table = table ∧ a.key = key
  · obtain ⟨rfl, rfl⟩ := hat
    rw [hplace] at hrow
    obtain ⟨old, hold, rfl⟩ := Option.map_eq_some_iff.1 hrow
    exact ⟨old, hold, hleaf.of_deleteFrom⟩
  · exact ⟨row, (hother hat).symm.trans hrow, hleaf⟩

/-- A deletion by names leaves what it does not name, in other rows and in its own. -/
theorem Holds.delete (h : s.Holds a leaf) (hs : s.Ordered) (ht : s.table table = .ok t)
    (hd : s.write key table (.delete (.ofNames timestamp given names)) = .ok s')
    (hunnamed : a.table = table → a.key = key →
      ∀ name ∈ names, ¬Deletion.Names t given a.superColumn a.column name) : s'.Holds a leaf := by
  obtain ⟨hplace, hother⟩ := row?_delete hs ht hd
  obtain ⟨row, hrow, hleaf⟩ := h
  by_cases hat : a.table = table ∧ a.key = key
  · obtain ⟨rfl, rfl⟩ := hat
    rw [hrow] at hplace
    exact ⟨_, hplace, hleaf.deleteFrom_ofNames (hunnamed rfl rfl)⟩
  · exact ⟨row, (hother hat).trans hrow, hleaf⟩

/-- In rows in order a store holds a leaf where it is found. -/
theorem holds_iff_at? (hs : s.RowsOrdered) : s.Holds a leaf ↔ s.at? a = some leaf := by
  rw [Holds, at?, leaf?, Option.bind_eq_some_iff]
  refine exists_congr fun row => and_congr_right fun hrow => ?_
  obtain ⟨t, ht⟩ := exists_table_of_row? hrow
  exact RowData.holds_iff_leaf? (hs.rows _ _ _ _ ht hrow)

/-- There a deletion takes away exactly what it addresses and shadows. -/
theorem holds_delete_iff (hs : s.RowsOrdered) (ht : s.table table = .ok t)
    (hd : s.write key table (.delete d) = .ok s') :
    s'.Holds a leaf ↔ s.Holds a leaf ∧
      ¬(a.table = table ∧ a.key = key ∧ leaf.Shadowed d.timestamp ∧
        ∃ row, s.row? table key = some row ∧ d.Addresses t row a.superColumn a.column) := by
  rw [holds_iff_at? (hs.delete ht hd), holds_iff_at? hs]
  exact leaf?_delete hs ht hd

/-- So without a timestamp it takes away what it names. -/
theorem not_holds_of_delete (hs : s.RowsOrdered) (ht : s.table table = .ok t)
    (hd : s.write key table (.delete (.ofNames none given names)) = .ok s')
    (htable : a.table = table) (hkey : a.key = key) {name : Bytes} (hname : name ∈ names)
    (hnames : Deletion.Names t given a.superColumn a.column name) : ¬s'.Holds a leaf := by
  rw [holds_delete_iff hs ht hd]
  rintro ⟨⟨row, hrow, hleaf⟩, hkept⟩
  rw [htable, hkey] at hrow
  have hordered := hs.rows _ _ _ _ ht hrow
  have hfound : row.leaf? a.superColumn a.column = some leaf :=
    (RowData.holds_iff_leaf? hordered).1 hleaf
  have haddressed : (Deletion.ofNames none given names).Addresses t row a.superColumn a.column :=
    (RowData.addresses_ofNames_iff hordered hfound).2 ⟨name, hname, hnames⟩
  exact hkept ⟨htable, hkey, .always _ rfl, row, hrow, haddressed⟩

end Delete

end WideColumn.Store
