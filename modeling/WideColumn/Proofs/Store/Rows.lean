import WideColumn.Proofs.Sorted.Lookup
import WideColumn.Proofs.Store.Refused
import WideColumn.Proofs.Store.Representation

/-!
# The rows of a store

A store is a map from tables and keys to rows, and a write changes the row at one of these places.
So writes to different places have no part in each other, and only the order of those to one place
counts.

- `Store.row?`: the row at a place;
- `Table.effect`: what an accepted write makes of a row;
- `row?_writeAll`: a sequence of writes leaves at each place what the writes to this place make of
  it;
- `writeAll_eq_of_writesTo`: sequences with the same writes to each place have the same result;
- `outline_run` and `ordered_run`: reachable states have the tables of the keyspace, in order.
-/

namespace WideColumn.Store

/-! ## Writes to a table -/

/-- What an accepted write makes of a row. A deletion does not begin a row. -/
def Table.effect (t : Table) : Write → Option RowData → Option RowData
  | .column c, row => some (onLeaves (Leaves.put t.order c) (row.getD t.freshRow))
  | .superColumn name columns, row =>
    some
      (t.onSuper name (fun leaves => columns.foldl (fun leaves c => leaves.put t.suborder c) leaves)
      (row.getD t.freshRow))
  | .increment none c, row => some (onLeaves (Leaves.increment t.order c) (row.getD t.freshRow))
  | .increment (some name) c, row =>
    some (t.onSuper name (Leaves.increment t.suborder c) (row.getD t.freshRow))
  | .delete d, row => row.map (t.deleteFrom d)

/-- The rows of a table have no part in what a write makes of one of them. -/
theorem Table.effect_emptied (t : Table) (w : Write) : t.emptied.effect w = t.effect w := by
  cases w with
  | increment superColumn c => cases superColumn <;> rfl
  | _ => rfl

namespace Table

variable {t t' : Table} {key : Bytes} {w : Write}

private theorem row?_alterRow (hrows : t.rows.Increasing compare) (key : Bytes)
    (change : RowData → RowData) (k : Bytes) :
    (t.alterRow key change).row? k =
      if k = key then some (change ((t.row? key).getD t.freshRow)) else t.row? k := by
  have hinc : (t.alterRow key change).rows.Increasing compare := hrows.alter_compare _ _ _
  rw [row?, row?, row?, hinc.find?_eq_lookup, hrows.find?_eq_lookup, hrows.find?_eq_lookup]
  exact hrows.lookup_alter _ _ _ k

/-- An accepted write changes the row of its key and no other. -/
theorem row?_write (hrows : t.rows.Increasing compare) (hw : t.write key w = .ok t') :
    t'.rows.Increasing compare ∧
      ∀ k, t'.row? k = if k = key then t.effect w (t.row? key) else t.row? k := by
  -- an accepted write is one change of the row with the key
  have halter (change : RowData → RowData) : (t.alterRow key change).rows.Increasing compare :=
    hrows.alter_compare _ _ _
  cases w with
  | column c =>
    obtain ⟨-, -, -, -, rfl⟩ := putColumn_eq_ok.1 hw
    exact ⟨halter _, row?_alterRow hrows key _⟩
  | superColumn name columns =>
    obtain ⟨-, -, -, -, -, rfl⟩ := putSuper_eq_ok.1 hw
    exact ⟨halter _, row?_alterRow hrows key _⟩
  | increment superColumn c =>
    obtain ⟨-, -, -, -, rfl⟩ := increment_eq_ok.1 hw
    cases superColumn with
    | none => exact ⟨halter _, row?_alterRow hrows key _⟩
    | some name => exact ⟨halter _, row?_alterRow hrows key _⟩
  | delete d =>
    obtain ⟨-, rfl⟩ := delete_eq_ok.1 hw
    rcases hrow : t.row? key with _ | row
    · refine ⟨hrows, fun k => ?_⟩
      by_cases hsame : k = key
      · rw [if_pos hsame, hsame]
        exact hrow
      · rw [if_neg hsame]
    · -- putting a row in place is a change that forgets what was there
      exact ⟨halter fun _ => t.deleteFrom d row, row?_alterRow hrows key fun _ =>
        t.deleteFrom d row⟩

end Table

/-! ## Writes to a store -/

/-- The row of a key in the table of a name. -/
def row? (s : Store) (name : String) (key : Bytes) : Option RowData :=
  match s.table name with
  | .ok t => t.row? key
  | .error _ => none

/-- A row that is there is in a table that is there. -/
theorem exists_table_of_row? {s : Store} {name : String} {key : Bytes} {row : RowData}
    (h : s.row? name key = some row) : ∃ t, s.table name = .ok t := by
  rw [row?] at h
  split at h
  · next t ht => exact ⟨t, ht⟩
  · cases h

/-- The rows of a well-formed table are well formed. -/
theorem Table.WellFormed.row {s : Store} {name : String} {key : Bytes} {t : Table}
    (h : t.WellFormed)
    (ht : s.table name = .ok t) : ∀ data ∈ s.row? name key, RowData.WellFormed t data := by
  intro data hdata
  rw [Store.row?, ht] at hdata
  obtain ⟨k, hk⟩ := Sorted.mem_of_find? hdata
  exact h.rows _ hk

/-- The tables of a store are sorted by name and their rows by key. -/
structure Ordered (s : Store) : Prop where
  tables : s.tables.Increasing compare
  rows : ∀ name t, s.table name = .ok t → t.rows.Increasing compare

/-- What an accepted write to a table makes of a row. -/
def effect (s : Store) (name : String) (w : Write) (row : Option RowData) : Option RowData :=
  match s.outline name with
  | .ok t => t.effect w row
  | .error _ => row

/-- The writes to one row, in order. -/
def writesTo (name : String) (key : Bytes) (writes : List (Bytes × String × Write)) : List Write :=
  writes.filterMap fun e => if e.2.1 = name ∧ e.1 = key then some e.2.2 else none

variable {s s' : Store} {name : String} {key : Bytes} {w : Write}
  {writes writes' : List (Bytes × String × Write)}

private theorem writesTo_cons (k : Bytes) (n : String) (w : Write) :
    writesTo name key ((k, n, w) :: writes) =
      if n = name ∧ k = key then w :: writesTo name key writes else writesTo name key writes := by
  rw [writesTo, List.filterMap_cons]
  by_cases hplace : n = name ∧ k = key
  · rw [if_pos hplace, if_pos hplace, writesTo]
  · rw [if_neg hplace, if_neg hplace, writesTo]

theorem mem_writesTo : w ∈ writesTo name key writes ↔ (key, name, w) ∈ writes := by
  induction writes with
  | nil => exact ⟨nofun, nofun⟩
  | cons first writes ih =>
    obtain ⟨k, n, w'⟩ := first
    rw [writesTo_cons, List.mem_cons, Prod.mk.injEq, Prod.mk.injEq]
    split
    · next hplace =>
      rw [List.mem_cons, ih]
      exact or_congr_left ⟨fun h => ⟨hplace.2.symm, hplace.1.symm, h⟩, fun h => h.2.2⟩
    · next hplace =>
      rw [ih]
      exact ⟨.inr, fun h => h.resolve_left fun h => hplace ⟨h.2.1.symm, h.1.symm⟩⟩

theorem writesTo_append (name : String) (key : Bytes)
    (writes writes' : List (Bytes × String × Write)) :
    writesTo name key (writes ++ writes') = writesTo name key writes ++ writesTo name key writes' :=
  List.filterMap_append

theorem writesTo_flatMap {α : Type} (name : String) (key : Bytes) (xs : List α)
    (f : α → List (Bytes × String × Write)) :
    writesTo name key (xs.flatMap f) = xs.flatMap fun x => writesTo name key (f x) :=
  List.filterMap_flatMap

/-- Of a request for one row, either all writes go to a row or none does. -/
theorem writesTo_map (name : String) (key k : Bytes) (n : String) (writes : List Write) :
    writesTo name key (writes.map fun w => (k, n, w)) =
      if k = key then (if n = name then writes else []) else [] := by
  rw [writesTo, List.filterMap_map]
  by_cases hk : k = key
  · by_cases hn : n = name
    · rw [if_pos hk, if_pos hn]
      exact (List.filterMap_congr fun w _ => if_pos ⟨hn, hk⟩).trans List.filterMap_some
    · rw [if_pos hk, if_neg hn]
      exact List.filterMap_eq_nil_iff.2 fun w _ => if_neg fun h => hn h.1
  · rw [if_neg hk]
    exact List.filterMap_eq_nil_iff.2 fun w _ => if_neg fun h => hk h.2

theorem effect_of_table {t : Table} (ht : s.table name = .ok t) (w : Write) :
    s.effect name w = t.effect w := by
  funext row
  rw [effect, outline, ht]
  exact congrFun (t.effect_emptied w) row

/-- Tables with the same outline make the same of a row. -/
theorem effect_of_outline (h : s'.outline = s.outline) : s'.effect = s.effect := by
  funext name w row
  rw [effect, effect, h]

/-- An accepted write changes the row at its place and no other. -/
theorem row?_write (hs : Ordered s) (hw : s.write key name w = .ok s') :
    Ordered s' ∧ ∀ name' key', s'.row? name' key' =
      if name' = name ∧ key' = key then s.effect name w (s.row? name key)
      else s.row? name' key' := by
  have hinc := (outline_write hs.tables hw).1
  obtain ⟨t, ht, t', ht', rfl⟩ := write_eq_ok.1 hw
  -- the table's own rows first, then the table in the store
  obtain ⟨hrows, hrow⟩ := Table.row?_write (hs.rows name t ht) ht'
  have htable := table_setTable hs.tables name t'
  refine ⟨⟨hinc, fun name' t'' ht'' => ?_⟩, fun name' key' => ?_⟩
  · rw [htable] at ht''
    split at ht''
    · cases ht''
      exact hrows
    · exact hs.rows name' t'' ht''
  · rw [effect_of_table ht, row?, htable]
    by_cases hsame : name' = name
    · have hold (k : Bytes) : s.row? name k = t.row? k := by rw [row?, ht]
      rw [if_pos hsame, hsame, hold, hold]
      simp only [hrow, true_and]
    · rw [if_neg hsame, if_neg fun h => hsame h.1]
      rfl

/-- A sequence of accepted writes leaves at each place what the writes to this place make of it. -/
theorem row?_writeAll :
    ∀ {s : Store}, Ordered s → (writeAll writes s).1 = .ok () →
      Ordered (writeAll writes s).2 ∧ (writeAll writes s).2.outline = s.outline ∧
        ∀ name key, (writeAll writes s).2.row? name key =
          (writesTo name key writes).foldl (fun row w => s.effect name w row)
          (s.row? name key) := by
  -- By induction on the writes; what they make of rows is the same from the beginning.
  induction writes with
  | nil => exact fun hs _ => ⟨hs, rfl, fun _ _ => rfl⟩
  | cons first writes ih =>
    intro s hs haccepted
    obtain ⟨key', name', w⟩ := first
    rw [writeAll] at haccepted ⊢
    cases hw : s.write key' name' w with
    | error e =>
      rw [hw] at haccepted
      cases haccepted
    | ok s₁ =>
      rw [hw] at haccepted
      obtain ⟨hs₁, hrow⟩ := row?_write hs hw
      have houtline := (outline_write hs.tables hw).2
      obtain ⟨hs', houtline', hrows⟩ := ih hs₁ haccepted
      refine ⟨hs', houtline'.trans houtline, fun name key => (hrows name key).trans ?_⟩
      rw [effect_of_outline houtline, hrow, writesTo_cons]
      by_cases hplace : name' = name ∧ key' = key
      · obtain ⟨rfl, rfl⟩ := hplace
        rw [if_pos ⟨rfl, rfl⟩, if_pos ⟨rfl, rfl⟩, List.foldl_cons]
      · have hother : ¬(name = name' ∧ key = key') := fun h => hplace ⟨h.1.symm, h.2.symm⟩
        rw [if_neg hplace, if_neg hother]

/-! ## Equality -/

/-- Stores with the same tables and the same rows are the same. -/
theorem eq_of_row? (hs : Ordered s) (hs' : Ordered s') (hkeyspace : s.keyspace = s'.keyspace)
    (houtline : s.outline = s'.outline) (hrow : ∀ name key, s.row? name key = s'.row? name key) :
    s = s' := by
  -- A table is its outline and its rows, and these are sorted, so what is found in them tells all.
  have htable : ∀ name t, s.table name = .ok t → s'.table name = .ok t := by
    intro name t ht
    obtain ⟨t', ht', hemptied⟩ := table_of_outline houtline.symm ht
    have hrows : t.rows = t'.rows := by
      have hinc := hs.rows name t ht
      have hinc' := hs'.rows name t' ht'
      refine hinc.eq_of_lookup hinc' fun key => ?_
      have hkey := hrow name key
      rw [row?, row?, ht, ht'] at hkey
      rw [← hinc.find?_eq_lookup, ← hinc'.find?_eq_lookup]
      exact hkey
    have hsame' : t' = t := by
      show { t'.emptied with rows := t'.rows } = { t.emptied with rows := t.rows }
      rw [hemptied, hrows]
    rw [ht', hsame']
  have htables : s.tables = s'.tables := by
    refine hs.tables.eq_of_lookup hs'.tables fun name => ?_
    ext t
    rw [hs.tables.lookup_eq_some_iff, hs'.tables.lookup_eq_some_iff, ← table_eq_ok_iff hs.tables,
      ← table_eq_ok_iff hs'.tables]
    refine ⟨htable name t, fun ht' => ?_⟩
    obtain ⟨t₀, ht₀, -⟩ := table_of_outline houtline ht'
    rw [htable name t₀ ht₀] at ht'
    rw [ht₀, Except.ok.inj ht']
  obtain ⟨keyspace, tables⟩ := s
  cases hkeyspace
  cases htables
  rfl

/-- Accepted sequences that make the same of each row have the same result. -/
theorem writeAll_eq_of_effect (hs : Ordered s) (haccepted : (writeAll writes s).1 = .ok ())
    (haccepted' : (writeAll writes' s).1 = .ok ())
    (h : ∀ name key, (writesTo name key writes').foldl (fun row w => s.effect name w row)
      (s.row? name key) =
      (writesTo name key writes).foldl (fun row w => s.effect name w row) (s.row? name key)) :
    writeAll writes' s = writeAll writes s := by
  obtain ⟨hordered, houtline, hrow⟩ := row?_writeAll hs haccepted
  obtain ⟨hordered', houtline', hrow'⟩ := row?_writeAll hs haccepted'
  refine Prod.ext (haccepted'.trans haccepted.symm) (eq_of_row? hordered' hordered ?_ ?_ ?_)
  · rw [keyspace_writeAll, keyspace_writeAll]
  · rw [houtline, houtline']
  · intro name key
    rw [hrow, hrow', h]

/-- Sequences with the same writes to each place have the same result, if they are accepted. -/
theorem writeAll_eq_of_writesTo (hs : Ordered s)
    (h : ∀ name key, writesTo name key writes = writesTo name key writes')
    (haccepted : (writeAll writes s).1 = .ok ()) : writeAll writes' s = writeAll writes s := by
  -- Whether a write is accepted depends on its table only and not on the writes before it.
  have haccepted' : (writeAll writes' s).1 = .ok () := by
    rw [writeAll_ok_iff hs.tables] at haccepted ⊢
    rintro ⟨key, name, w⟩ hw
    rw [← mem_writesTo, ← h, mem_writesTo] at hw
    exact haccepted _ hw
  exact writeAll_eq_of_effect hs haccepted haccepted' fun name key => by rw [h]

/-! ## Reachable states -/

/-- Writes leave the tables as they are, apart from their rows, whether all of them are accepted or
not. -/
theorem outline_writeAll :
    ∀ {s : Store}, s.tables.Increasing compare → (writeAll writes s).2.outline = s.outline := by
  induction writes with
  | nil => exact fun _ => rfl
  | cons first writes ih =>
    intro s hinc
    obtain ⟨key, name, w⟩ := first
    rw [writeAll]
    cases hw : s.write key name w with
    | error e => rfl
    | ok s' =>
      obtain ⟨hinc', houtline⟩ := outline_write hinc hw
      exact (ih hinc').trans houtline

private theorem outline_apply (hinc : s.tables.Increasing compare) (operation : Operation) :
    (s.apply operation).outline = s.outline := by
  -- An operation that is refused changes nothing, a batch apart.
  cases operation with
  | batch mutations =>
    rw [apply, batch]
    split
    · rfl
    · exact outline_writeAll hinc
  | add key parent c =>
    rw [apply]
    cases hadd : s.add key parent c with
    | error e => rfl
    | ok s' => exact (outline_write hinc hadd).2
  | remove key path timestamp =>
    rw [apply]
    cases hremove : s.remove key path timestamp with
    | error e => rfl
    | ok s' =>
      obtain ⟨t, ht, -, -, t', ht', rfl⟩ := remove_eq_ok.1 hremove
      have hw : t.write key (.delete (deletionAt path timestamp)) = .ok t' := ht'
      exact outline_setTable hinc ht (Table.emptied_of_write hw)
  | truncate name =>
    rw [apply]
    cases htruncate : s.truncate name with
    | error e => rfl
    | ok s' =>
      obtain ⟨t, ht, rfl⟩ := truncate_eq_ok.1 htruncate
      exact outline_setTable hinc ht rfl

/-- The tables of every reachable state are those of the keyspace, apart from their rows. -/
theorem outline_run (registry : Registry) (keyspace : KeyspaceDef) (history : List Operation) :
    ((ofKeyspace registry keyspace).run history).outline =
    (ofKeyspace registry keyspace).outline := by
  -- By induction on the history, from its end.
  induction history using List.reverseRecOn with
  | nil => rfl
  | append_singleton history operation ih =>
    rw [run, List.foldl_concat]
    exact (outline_apply (increasing_run registry keyspace history) operation).trans ih

/-- Tables and rows are sorted in every reachable state. -/
theorem ordered_run (registry : Registry) (keyspace : KeyspaceDef) (history : List Operation) :
    Ordered ((ofKeyspace registry keyspace).run history) := by
  have hinv : TableInvariant (fun _ _ => True) fun t => t.rows.Increasing compare :=
    ⟨fun _ => List.Pairwise.nil, fun hrows _ hw => (Table.row?_write hrows hw).1⟩
  have hkept := @TableInvariant.run _ _ hinv registry keyspace history fun _ _ _ _ _ _ _ _ =>
    trivial
  exact ⟨hkept.increasing, fun name t ht =>
    hkept.holds (name, t) ((table_eq_ok_iff hkept.increasing).1 ht)⟩

end WideColumn.Store
