import WideColumn.Proofs.Store.Deletion
import WideColumn.Proofs.Store.Trace

/-!
# Counters step by step

A counter has an address: a table, a row key, a super column if there are any, and a name. A step
that takes effect either adds to the counter at an address, or removes it, or leaves it as it is.

- `Address` and `Store.at?`: the leaf at an address;
- `Table.CountsExactly`: increments under exact names, which change one counter and no other;
- `Step.amountAt` and `Step.Removes`: the steps that add to a counter and those that remove it;
- `leaf?_effect_increment` and `leaf?_deleteFrom_counter`: the leaves of a row after an increment,
  and after a deletion;
- `at?_step`: what a step makes of a counter.
-/

namespace WideColumn.Store

/-! ## Addresses -/

/-- Where a leaf is stored. -/
@[ext] structure Address where
  table : String
  key : Bytes
  superColumn : Option Bytes
  column : Bytes
  deriving DecidableEq, Repr

/-- The leaf at an address. -/
def at? (s : Store) (a : Address) : Option Leaf := s.leaf? a.table a.key a.superColumn a.column

/-- Increments under exact names. All other writes are allowed. -/
def Table.CountsExactly (t : Table) : Write → Prop
  | .increment given c =>
    (∀ name ∈ given, Exact t.comparator.Accepts t.comparator.compare name) ∧
      Exact t.leafComparator.Accepts t.leafComparator.compare c.name
  | .column _ | .superColumn .. | .delete _ => True

/-- What a step adds to the counter at an address. -/
def Step.amountAt (a : Address) : Step → Option Int64
  | .write key table (.increment given c) =>
    if a = ⟨table, key, given, c.name⟩ then some c.value else none
  | .write _ _ (.column _) | .write _ _ (.superColumn ..) | .write _ _ (.delete _) | .truncate _ =>
    none

/-- A step removes the counter at an address from a store: it truncates the table, or it is a
deletion in the row that addresses the counter. -/
inductive Step.Removes (s : Store) (a : Address) : Step → Prop where
  | truncated : Removes s a (.truncate a.table)
  | deleted {d : Deletion} {t : Table} {row : RowData} (ht : s.table a.table = .ok t)
      (hrow : s.row? a.table a.key = some row)
      (haddressed : d.Addresses t row a.superColumn a.column) :
      Removes s a (.write a.key a.table (.delete d))

/-- A leaf after an amount was added to it, if any was. -/
def Leaf.plus (leaf : Option Leaf) : Option Int64 → Option Leaf
  | some amount => some (Leaf.bump amount (leaf.getD (.counter 0)))
  | none => leaf

/-! ## Rows -/

/-- An increment under an exact name adds to the leaf of this name and to no other. -/
theorem lookup_increment {type : DataType} {leaves : Leaves}
    (h : Leaves.WellFormed type true leaves)
    {c : Counter} (hc : Exact type.Accepts type.compare c.name) (name : Bytes) :
    (leaves.increment type.compare c).lookup name =
      Leaf.plus (leaves.lookup name) (if name = c.name then some c.value else none) := by
  rw [Leaves.increment,
    Sorted.lookup_alter h.increasing h.names (DataType.orderedOn_compare type) hc]
  by_cases hname : name = c.name
  · rw [if_pos hname, if_pos hname, hname]
    rfl
  · rw [if_neg hname, if_neg hname]
    rfl

namespace RowData

variable {t : Table} {data : RowData}

/-- The leaves of a row are of the kind of its table. -/
theorem isCounter_of_leaf? (hdata : WellFormed t data) {superColumn : Option Bytes} {name : Bytes}
    {leaf : Leaf} (hleaf : data.leaf? superColumn name = some leaf) :
    leaf.isCounter = t.holdsCounters := by
  have hordered := Ordered.of_wellFormed hdata
  cases data with
  | flat leaves =>
    cases superColumn with
    | none => exact hdata.2.kind _ ((leaf?_flat_iff hordered.2).1 hleaf)
    | some superColumn => cases hleaf
  | grouped supers =>
    cases superColumn with
    | none => cases hleaf
    | some superColumn =>
      obtain ⟨leaves, hmem, hleaf⟩ := (leaf?_grouped_iff hordered).1 hleaf
      exact (hdata.2.2.2 _ hmem).kind _ hleaf

/-- In a counter table a deletion takes away what it addresses, whatever its timestamp. -/
theorem leaf?_deleteFrom_counter (hdata : WellFormed t data) (hcounters : t.holdsCounters = true)
    {d : Deletion} {superColumn : Option Bytes} {name : Bytes} :
    (d.Addresses t data superColumn name → (t.deleteFrom d data).leaf? superColumn name = none) ∧
      (¬d.Addresses t data superColumn name →
        (t.deleteFrom d data).leaf? superColumn name = data.leaf? superColumn name) := by
  have hleft := fun leaf => @leaf?_deleteFrom t d data (.of_wellFormed hdata) superColumn name leaf
  -- no timestamp keeps a counter
  have hshadowed : ∀ leaf, data.leaf? superColumn name = some leaf → leaf.Shadowed d.timestamp := by
    intro leaf hleaf
    have hkind := (isCounter_of_leaf? hdata hleaf).trans hcounters
    cases leaf with
    | counter value => exact .counter value
    | cell value timestamp ttl => cases hkind
  constructor
  · intro haddressed
    apply Option.eq_none_iff_forall_ne_some.2
    intro leaf hleaf
    obtain ⟨hstored, hkept⟩ := (hleft leaf).1 hleaf
    exact hkept ⟨haddressed, hshadowed leaf hstored⟩
  · intro haddressed
    ext leaf
    rw [hleft leaf]
    exact and_iff_left fun h => haddressed h.1

end RowData

/-- An accepted increment under exact names adds to the counter of these names and to no other. -/
theorem Table.leaf?_effect_increment {t : Table} {row : Option RowData}
    (hcounters : t.holdsCounters = true) (hrow : ∀ data ∈ row, RowData.WellFormed t data)
    {given : Option Bytes} {c : Counter} (hlayout : t.isSuper = given.isSome)
    (hexact : t.CountsExactly (.increment given c)) (superColumn : Option Bytes) (name : Bytes) :
    ((t.effect (.increment given c) row).bind fun data => data.leaf? superColumn name) =
      Leaf.plus (row.bind fun data => data.leaf? superColumn name)
        (if superColumn = given ∧ name = c.name then some c.value else none) := by
  obtain ⟨hgiven, hname⟩ := hexact
  have hdata := wellFormed_getD hrow
  have hleaves := hdata.leaves given
  rw [hcounters] at hleaves
  have hincrement := lookup_increment hleaves hname name
  rw [RowData.lookup_leaves] at hincrement
  rw [← @leaf?_getD t row]
  -- The row is flat if no super column is given, and has super columns otherwise.
  cases given with
  | none =>
    rw [leafComparator, hlayout] at hincrement
    rw [effect, Option.bind_some, RowData.leaf?_onLeaves hdata hlayout]
    by_cases hsame : superColumn = none
    · subst hsame
      rw [if_pos rfl]
      simpa [order] using hincrement
    · rw [if_neg hsame, if_neg fun h => hsame h.1]
      rfl
  | some given =>
    rw [leafComparator, hlayout] at hincrement
    rw [effect, Option.bind_some, RowData.leaf?_onSuper hdata hlayout (hgiven given rfl)]
    by_cases hsame : superColumn = some given
    · subst hsame
      rw [if_pos rfl]
      simpa [suborder] using hincrement
    · rw [if_neg hsame, if_neg fun h => hsame h.1]
      rfl

/-! ## Stores -/

variable {s s' : Store} {a : Address} {name : String} {t : Table} {change : Step}

/-- A truncation takes away the rows of its table. -/
theorem row?_truncate (hs : s.Ordered) (h : s.truncate name = .ok s') (name' : String)
    (key : Bytes) :
    s'.row? name' key = if name' = name then none else s.row? name' key := by
  obtain ⟨t, -, rfl⟩ := truncate_eq_ok.1 h
  rw [row?, table_setTable hs.tables]
  by_cases hname : name' = name
  · rw [if_pos hname, if_pos hname]
    rfl
  · rw [if_neg hname, if_neg hname]
    rfl

theorem Ordered.step (hs : s.Ordered) (hstep : s.step change = .ok s') : s'.Ordered := by
  cases change with
  | write key name w => exact (row?_write hs hstep).1
  | truncate name =>
    obtain ⟨t, -, rfl⟩ := truncate_eq_ok.1 hstep
    refine ⟨increasing_setTable hs.tables _ _, fun name' t' ht' => ?_⟩
    rw [table_setTable hs.tables] at ht'
    split at ht'
    · cases ht'
      exact List.Pairwise.nil
    · exact hs.rows name' t' ht'

/-- A step leaves a table well formed, and leaves it as it is apart from its rows. -/
theorem exists_table_step (hs : s.Ordered) (ht : s.table name = .ok t) (hwell : t.WellFormed)
    (hnames : ∀ w ∈ change.writeTo name, t.SuperNameDecodes w) (hstep : s.step change = .ok s') :
    ∃ t', s'.table name = .ok t' ∧ t'.emptied = t.emptied ∧ t'.WellFormed := by
  cases change with
  | write key name' w =>
    obtain ⟨t₁, ht₁, t₁', ht₁', rfl⟩ := write_eq_ok.1 hstep
    rw [table_setTable hs.tables]
    by_cases hname : name = name'
    · subst hname
      cases ht.symm.trans ht₁
      rw [if_pos rfl]
      exact ⟨t₁', rfl, Table.emptied_of_write ht₁', hwell.write (hnames w (if_pos rfl)) ht₁'⟩
    · rw [if_neg hname]
      exact ⟨t, ht, rfl, hwell⟩
  | truncate name' =>
    obtain ⟨t₁, ht₁, rfl⟩ := truncate_eq_ok.1 hstep
    rw [table_setTable hs.tables]
    by_cases hname : name = name'
    · subst hname
      cases ht.symm.trans ht₁
      rw [if_pos rfl]
      -- nothing is left that could be out of order
      exact ⟨_, rfl, rfl, List.Pairwise.nil, nofun⟩
    · rw [if_neg hname]
      exact ⟨t, ht, rfl, hwell⟩

private theorem at?_of_row? (h : s'.row? a.table a.key = s.row? a.table a.key) :
    s'.at? a = s.at? a := by
  rw [at?, at?, leaf?, leaf?, h]

/-- An accepted write to another row has no part in a counter. -/
theorem amountAt_of_ne {key : Bytes} {w : Write} (h : ¬(a.table = name ∧ a.key = key)) :
    Step.amountAt a (.write key name w) = none := by
  cases w with
  | increment given c =>
    rw [Step.amountAt, if_neg]
    rintro rfl
    exact h ⟨rfl, rfl⟩
  | _ => rfl

/-- A write to the row of a counter adds to it, or removes it, or leaves it as it is. -/
theorem at?_write (hs : s.Ordered) (ht : s.table a.table = .ok t) (hwell : t.WellFormed)
    (hcounters : t.holdsCounters = true) {w : Write} (hexact : t.CountsExactly w)
    (hw : s.write a.key a.table w = .ok s') :
    (Step.Removes s a (.write a.key a.table w) → s'.at? a = none) ∧
      (¬Step.Removes s a (.write a.key a.table w) →
        s'.at? a = Leaf.plus (s.at? a) (Step.amountAt a (.write a.key a.table w))) := by
  have hrow : ∀ data ∈ s.row? a.table a.key, RowData.WellFormed t data := hwell.row ht
  have hleaf : s'.at? a = (t.effect w (s.row? a.table a.key)).bind fun data =>
      data.leaf? a.superColumn a.column := by
    rw [at?, leaf?, (row?_write hs hw).2, if_pos ⟨rfl, rfl⟩, effect_of_table ht]
  obtain ⟨t₁, ht₁, t', ht', -⟩ := write_eq_ok.1 hw
  cases ht.symm.trans ht₁
  cases w with
  -- a counter table takes no columns
  | column c => cases (Table.putColumn_eq_ok.1 ht').1.symm.trans hcounters
  | superColumn given columns => cases (Table.putSuper_eq_ok.1 ht').1.symm.trans hcounters
  | increment given c =>
    obtain ⟨-, hlayout, -⟩ := Table.increment_eq_ok.1 ht'
    refine ⟨fun hremoves => (by cases hremoves), fun _ => ?_⟩
    rw [hleaf, Table.leaf?_effect_increment hcounters hrow hlayout hexact, Step.amountAt]
    have hsame : (a.superColumn = given ∧ a.column = c.name) ↔
        a = ⟨a.table, a.key, given, c.name⟩ := by
      rw [Address.ext_iff]
      simp
    simp only [hsame]
    rfl
  | delete d =>
    rw [hleaf, Table.effect, Step.amountAt]
    cases hold : s.row? a.table a.key with
    | none =>
      have hnone : s.at? a = none := by rw [at?, leaf?, hold]; rfl
      exact ⟨fun _ => rfl, fun _ => hnone.symm⟩
    | some row =>
      have hstored : s.at? a = row.leaf? a.superColumn a.column := by rw [at?, leaf?, hold]; rfl
      obtain ⟨hgone, hkept⟩ := @RowData.leaf?_deleteFrom_counter t row (hrow row hold) hcounters d
        a.superColumn a.column
      constructor
      · intro hremoves
        cases hremoves with
        | deleted ht₂ hrow₂ haddressed =>
          cases ht.symm.trans ht₂
          cases hold.symm.trans hrow₂
          exact hgone haddressed
      · intro hnot
        rw [hstored]
        exact hkept fun haddressed => hnot (.deleted ht hold haddressed)

/-- An increment under exact names leaves all other counters as they are. -/
theorem at?_increment_of_ne {a' : Address} (hs : s.Ordered) (ht : s.table a.table = .ok t)
    (hwell : t.WellFormed) {amount : Int64}
    (hexact : t.CountsExactly (.increment a.superColumn ⟨a.column, amount⟩))
    (hw : s.write a.key a.table (.increment a.superColumn ⟨a.column, amount⟩) = .ok s')
    (hne : a' ≠ a) :
    s'.at? a' = s.at? a' := by
  -- in another row nothing changes; in this one only the counter that was named
  by_cases hrow : a'.table = a.table ∧ a'.key = a.key
  · obtain ⟨htable, hkey⟩ := hrow
    obtain ⟨t₁, ht₁, t', ht', -⟩ := write_eq_ok.1 hw
    cases ht.symm.trans ht₁
    have hcounters := (Table.increment_eq_ok.1 ht').1
    rw [← htable] at ht hw
    rw [← hkey] at hw
    obtain ⟨-, hkept⟩ := at?_write hs ht hwell hcounters hexact hw
    have hother : a' ≠ ⟨a'.table, a'.key, a.superColumn, a.column⟩ := by
      rw [htable, hkey]
      exact hne
    rw [hkept nofun, Step.amountAt, if_neg hother, Leaf.plus]
  · -- the row is not the one that was written to
    apply at?_of_row?
    rw [(row?_write hs hw).2, if_neg hrow]

/-- A step adds to a counter, or removes it, or leaves it as it is. -/
theorem at?_step (hs : s.Ordered) (ht : s.table a.table = .ok t) (hwell : t.WellFormed)
    (hcounters : t.holdsCounters = true) (hexact : ∀ w ∈ change.writeTo a.table, t.CountsExactly w)
    (hstep : s.step change = .ok s') :
    (change.Removes s a → s'.at? a = none) ∧
      (¬change.Removes s a → s'.at? a = Leaf.plus (s.at? a) (change.amountAt a)) := by
  cases change with
  | write key name w =>
    by_cases hplace : a.table = name ∧ a.key = key
    · obtain ⟨rfl, rfl⟩ := hplace
      exact at?_write hs ht hwell hcounters (hexact w (if_pos rfl)) hstep
    · -- the step is about another row
      have hsame : s'.at? a = s.at? a :=
        at?_of_row? (by rw [(row?_write hs hstep).2, if_neg hplace])
      rw [amountAt_of_ne hplace, hsame]
      refine ⟨fun hremoves => ?_, fun _ => rfl⟩
      cases hremoves
      exact absurd ⟨rfl, rfl⟩ hplace
  | truncate name =>
    have hrow := row?_truncate hs hstep a.table a.key
    -- a truncation takes every counter of its table and none of another one
    by_cases hname : a.table = name
    · subst hname
      rw [if_pos rfl] at hrow
      have hnone : s'.at? a = none := by rw [at?, leaf?, hrow]; rfl
      exact ⟨fun _ => hnone, fun hnot => absurd .truncated hnot⟩
    · rw [if_neg hname] at hrow
      refine ⟨fun hremoves => ?_, fun _ => at?_of_row? hrow⟩
      cases hremoves
      exact absurd rfl hname

end WideColumn.Store
