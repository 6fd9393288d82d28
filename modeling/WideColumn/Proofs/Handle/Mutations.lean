import WideColumn.Proofs.Handle.Schema
import WideColumn.Proofs.Store.Cells

/-!
# What a handle writes

The mutations that a handle makes up are writes of the columns it was given, packed one by one. A
table with the types of the handle accepts each of them.

- `NewColumns.pairs`: the columns of a write with the super column they go to;
- `Handle.packPut` and `Handle.address`: what such a column is packed to, and where it goes;
- `of_insertMutations`: the writes of an insertion put the packed columns in their order;
- `counterMutation_eq_ok`: an addition is one increment;
- `Writes.accepted`: a table with the same types accepts them.
-/

namespace WideColumn

/-- The columns of a write, each with the super column it goes to. -/
def NewColumns.pairs : NewColumns → List (Option Value × Value × Value)
  | .flat columns => columns.map fun column => (none, column)
  | .grouped supers => supers.flatMap fun e => e.2.map fun column => (some e.1, column)

namespace Handle

/-- The packed address of a column in its row. -/
def address (h : Handle) (superColumn : Option Value) (name : Value) :
    Except ClientError (Option Bytes × Bytes) := do
  let superColumn ← h.packSuperColumn superColumn
  return (superColumn, ← h.packLeafName name)

/-- A packed column with the packed name of its super column. -/
def packPut (h : Handle) (o : WriteOptions) (pair : Option Value × Value × Value) :
    Except ClientError (Option Bytes × Column) := do
  let superColumn ← h.packSuperColumn pair.1
  return (superColumn, ← h.packColumn o pair.2)

variable {h : Handle} {o : WriteOptions} {t : Store.Table}

/-! ## Columns -/

theorem checkCounters_eq_ok {counters : Bool} :
    h.checkCounters counters = .ok () ↔ h.schema.kind.isCounter = counters := by
  unfold checkCounters
  cases h.schema.kind.isCounter <;> cases counters <;> simp [invalid]

theorem packColumn_eq_ok {column : Value × Value} {c : Column} :
    h.packColumn o column = .ok c ↔
      ∃ name, h.packLeafName column.1 = .ok name ∧ ∃ value,
        (h.schema.validator name).pack column.2 .value = .ok value ∧
          ⟨name, value, o.timestamp, o.ttl⟩ = c := by
  simp only [packColumn, bind_eq_ok, liftMarshal_eq_ok, pure_eq_ok]

theorem packPut_eq_ok {pair : Option Value × Value × Value} {put : Option Bytes × Column} :
    h.packPut o pair = .ok put ↔
      h.packSuperColumn pair.1 = .ok put.1 ∧ h.packColumn o pair.2 = .ok put.2 := by
  simp only [packPut, bind_eq_ok, pure_eq_ok]
  constructor
  · rintro ⟨superColumn, hsuper, c, hc, rfl⟩
    exact ⟨hsuper, hc⟩
  · rintro ⟨hsuper, hc⟩
    exact ⟨put.1, hsuper, put.2, hc, rfl⟩

theorem address_eq_ok {superColumn : Option Value} {name : Value} {address : Option Bytes × Bytes} :
    h.address superColumn name = .ok address ↔
      h.packSuperColumn superColumn = .ok address.1 ∧ h.packLeafName name = .ok address.2 := by
  simp only [Handle.address, bind_eq_ok, pure_eq_ok]
  constructor
  · rintro ⟨superColumn', hsuper, name', hname, rfl⟩
    exact ⟨hsuper, hname⟩
  · rintro ⟨hsuper, hname⟩
    exact ⟨address.1, hsuper, address.2, hname, rfl⟩

/-- A packed column goes to its address. -/
theorem address_of_packPut {pair : Option Value × Value × Value} {put : Option Bytes × Column}
    (hput : h.packPut o pair = .ok put) : h.address pair.1 pair.2.1 = .ok (put.1, put.2.name) := by
  obtain ⟨hsuper, hc⟩ := packPut_eq_ok.1 hput
  obtain ⟨name, hname, value, -, hcolumn⟩ := packColumn_eq_ok.1 hc
  exact address_eq_ok.2 ⟨hsuper, by rw [← hcolumn, hname]⟩

/-! ## Insertions -/

/-- A write of packed columns. A super column that is written has columns. -/
def Writes (h : Handle) (o : WriteOptions) : Store.Write → Prop
  | .column c => h.schema.kind.isSuper = false ∧ ∃ column, h.packColumn o column = .ok c
  | .superColumn name columns =>
    h.schema.kind.isSuper = true ∧ (∃ v, h.packSuperName v = .ok name) ∧ columns ≠ [] ∧
      ∀ c ∈ columns, ∃ column, h.packColumn o column = .ok c
  | .increment .. | .delete _ => False

/-- Mutations write packed columns, and these are the given ones in their order. -/
structure Inserts (h : Handle) (o : WriteOptions) (pairs : List (Option Value × Value × Value))
    (mutations : List Mutation) : Prop where
  packed : pairs.mapM (h.packPut o) =
    .ok ((mutations.flatMap Mutation.writes).flatMap Store.Write.puts)
  writes : ∀ w ∈ mutations.flatMap Mutation.writes, h.Writes o w

/-- What is written together is written by the first mutation and by the others. -/
theorem Inserts.cons {pairs pairs' : List (Option Value × Value × Value)} {mutation : Mutation}
    {w : Store.Write} {mutations : List Mutation} (hwrites : mutation.writes = [w])
    (hw : h.Writes o w) (hpacked : pairs.mapM (h.packPut o) = .ok w.puts)
    (hrest : h.Inserts o pairs' mutations) :
    h.Inserts o (pairs ++ pairs') (mutation :: mutations) where
  packed := by
    rw [List.flatMap_cons, hwrites, List.singleton_append, List.flatMap_cons]
    exact mapM_append_eq_ok.2 ⟨_, _, hpacked, hrest.packed, rfl⟩
  writes w' hw' := by
    rw [List.flatMap_cons, hwrites, List.singleton_append, List.mem_cons] at hw'
    rcases hw' with rfl | hw'
    · exact hw
    · exact hrest.writes w' hw'

private theorem inserts_flat (hsuper : h.schema.kind.isSuper = false)
    {columns : List (Value × Value)} :
    ∀ {mutations : List Mutation},
      (columns.mapM fun column => do
        return Mutation.insert (.column (← h.packColumn o column))) = .ok mutations →
      h.Inserts o (NewColumns.flat columns).pairs mutations := by
  induction columns with
  | nil =>
    intro mutations hm
    cases hm
    exact ⟨rfl, nofun⟩
  | cons column columns ih =>
    intro mutations hm
    simp only [List.mapM_cons, bind_eq_ok, pure_eq_ok] at hm
    obtain ⟨_, ⟨c, hc, rfl⟩, rest, hrest, rfl⟩ := hm
    -- a column on its own is put without a super column
    have hput : h.packPut o (none, column) = .ok (none, c) := packPut_eq_ok.2 ⟨rfl, hc⟩
    refine @Inserts.cons h o [(none, column)] _ _ (.column c) _ rfl ⟨hsuper, column, hc⟩
      ?_ (ih hrest)
    rw [List.mapM_cons, hput]
    rfl

/-- Columns of one super column are packed one by one. -/
theorem mapM_packPut {superColumn : Value} {name : Bytes}
    (hname : h.packSuperName superColumn = .ok name) {columns : List (Value × Value)} :
    ∀ {packed : List Column}, columns.mapM (h.packColumn o) = .ok packed →
      (columns.map fun column => (some superColumn, column)).mapM (h.packPut o) =
        .ok (packed.map fun c => (some name, c)) := by
  -- the super column is packed once, and all columns of it are put there
  have hsuper : h.packSuperColumn (some superColumn) = .ok (some name) := by
    rw [packSuperColumn, hname]
    rfl
  induction columns with
  | nil =>
    intro packed hpacked
    cases hpacked
    rfl
  | cons column columns ih =>
    intro packed hpacked
    simp only [List.mapM_cons, bind_eq_ok, pure_eq_ok] at hpacked
    obtain ⟨c, hc, rest, hrest, rfl⟩ := hpacked
    have hput : h.packPut o (some superColumn, column) = .ok (some name, c) :=
      packPut_eq_ok.2 ⟨hsuper, hc⟩
    rw [List.map_cons, List.mapM_cons, hput, ih hrest]
    rfl

private theorem inserts_grouped (hsuper : h.schema.kind.isSuper = true)
    {supers : List (Value × List (Value × Value))} :
    ∀ {mutations : List Mutation},
      ((supers.filter fun (_, columns) => !columns.isEmpty).mapM fun (superColumn, columns) => do
        let name ← h.packSuperName superColumn
        return Mutation.insert (.superColumn name (← columns.mapM (h.packColumn o)))) =
          .ok mutations →
      h.Inserts o (NewColumns.grouped supers).pairs mutations := by
  induction supers with
  | nil =>
    intro mutations hm
    cases hm
    exact ⟨rfl, nofun⟩
  | cons e supers ih =>
    intro mutations hm
    obtain ⟨superColumn, columns⟩ := e
    -- A super column without columns is left out, and it has no columns to put either.
    cases columns with
    | nil => exact ih hm
    | cons column columns =>
      rw [List.filter_cons_of_pos rfl] at hm
      simp only [List.mapM_cons, bind_eq_ok, pure_eq_ok] at hm
      obtain ⟨_, ⟨name, hname, packed, ⟨c, hc, rest', hrest', rfl⟩, rfl⟩, rest, hrest, rfl⟩ := hm
      have hall : (column :: columns).mapM (h.packColumn o) = .ok (c :: rest') := by
        simp only [List.mapM_cons, bind_eq_ok, pure_eq_ok]
        exact ⟨c, hc, rest', hrest', rfl⟩
      refine @Inserts.cons h o _ _ _ (.superColumn name (c :: rest')) _ rfl
        ⟨hsuper, ⟨superColumn, hname⟩, List.cons_ne_nil _ _, fun c' hc' => ?_⟩
        (mapM_packPut hname hall) (ih hrest)
      obtain ⟨column', -, hcolumn'⟩ := (mem_of_mapM hall).1 hc'
      exact ⟨column', hcolumn'⟩

/-- An insertion writes the columns it was given, to a table that holds none but cells. -/
theorem of_insertMutations {columns : NewColumns} {mutations : List Mutation}
    (hm : h.insertMutations columns o = .ok mutations) :
    h.schema.kind.isCounter = false ∧ h.Inserts o columns.pairs mutations := by
  simp only [insertMutations, check_eq_ok] at hm
  obtain ⟨hcounters, hm⟩ := hm
  refine ⟨checkCounters_eq_ok.1 hcounters, ?_⟩
  split at hm
  · cases hm
  next hlayout =>
  split at hm
  · cases hm
  -- The columns are of the layout of the table, so they are packed one by one.
  have hlayout' : columns.isSuper = h.schema.kind.isSuper := by simpa using hlayout
  cases columns with
  | flat columns => exact inserts_flat hlayout'.symm hm
  | grouped supers => exact inserts_grouped hlayout'.symm hm

/-! ## Increments -/

/-- A counter is changed by one increment. -/
theorem counterMutation_eq_ok {column : Value} {amount : Int64} {superColumn : Option Value}
    {mutation : Mutation} :
    h.counterMutation column amount superColumn = .ok mutation ↔
      h.schema.kind.isCounter = true ∧ ∃ name, h.packLeafName column = .ok name ∧
        ∃ packed, h.packSuperColumn superColumn = .ok packed ∧
          (packed = none → h.schema.kind.isSuper = false) ∧
          (match packed with
          | some superColumn => .insert (.superCounter superColumn [⟨name, amount⟩])
          | none => .insert (.counter ⟨name, amount⟩)) = mutation := by
  rw [counterMutation, check_eq_ok, checkCounters_eq_ok]
  simp only [bind_eq_ok]
  refine and_congr_right fun _ => exists_congr fun name => and_congr_right fun _ =>
    exists_congr fun packed => and_congr_right fun _ => ?_
  -- Only tables with super columns ask for one.
  cases packed with
  | some superColumn =>
    exact pure_eq_ok.trans (and_iff_right fun h => absurd h (Option.some_ne_none _)).symm
  | none => cases h.schema.kind.isSuper <;> simp [invalid, pure_eq_ok]

theorem exists_counterMutation {column : Value} {superColumn : Option Value} {name : Bytes}
    {packed : Option Bytes} (hcounters : h.schema.kind.isCounter = true)
    (hname : h.packLeafName column = .ok name)
    (hpacked : h.packSuperColumn superColumn = .ok packed)
    (hflat : packed = none → h.schema.kind.isSuper = false) (amount : Int64) :
    ∃ mutation, h.counterMutation column amount superColumn = .ok mutation ∧
      mutation.writes = [.increment packed ⟨name, amount⟩] := by
  refine ⟨_, counterMutation_eq_ok.2 ⟨hcounters, name, hname, packed, hpacked, hflat, rfl⟩, ?_⟩
  cases packed <;> rfl

/-! ## Acceptance -/

/-- The name of a packed column is exact, and a table with the types of the handle takes the
column. -/
theorem takes_of_packColumn (hagrees : h.Agrees t) {column : Value × Value} {c : Column}
    (hc : h.packColumn o column = .ok c) :
    Exact t.leafComparator.Accepts t.leafComparator.compare c.name ∧
    t.Takes t.leafComparator c := by
  obtain ⟨name, hname, value, hvalue, rfl⟩ := packColumn_eq_ok.1 hc
  rw [packLeafName, hagrees.columnType, packName_eq_ok] at hname
  rw [hagrees.validator] at hvalue
  have hexact := DataType.exact_of_pack hname.1
  exact ⟨hexact, ⟨hname.2, hexact.holds⟩, DataType.accepts_of_pack hvalue⟩

theorem exact_of_packSuperName (hagrees : h.Agrees t) {superColumn : Value} {name : Bytes}
    (hname : h.packSuperName superColumn = .ok name) :
    t.isSuper = true ∧ name ≠ [] ∧ Exact t.comparator.Accepts t.comparator.compare name := by
  rw [packSuperName, hagrees.superType] at hname
  cases hsuper : t.isSuper with
  | false =>
    rw [hsuper] at hname
    cases hname
  | true =>
    rw [hsuper, if_pos rfl] at hname
    obtain ⟨hpack, hne⟩ := packName_eq_ok.1 hname
    exact ⟨rfl, hne, DataType.exact_of_pack hpack⟩

/-- Packed addresses are exact in a table with the types of the handle. -/
theorem exact_of_address (hagrees : h.Agrees t) {superColumn : Option Value} {column : Value}
    {address : Option Bytes × Bytes} (haddress : h.address superColumn column = .ok address) :
    (∀ name ∈ address.1, t.isSuper = true ∧ Exact t.comparator.Accepts t.comparator.compare name) ∧
      Exact t.leafComparator.Accepts t.leafComparator.compare address.2 := by
  -- the address was packed by the table's own types, for the handle agrees with it
  obtain ⟨hpacked, hcolumn⟩ := address_eq_ok.1 haddress
  constructor
  · intro name hname
    rw [Option.mem_def.1 hname] at hpacked
    cases superColumn with
    | none => cases hpacked
    | some superColumn =>
      obtain ⟨name', hname', heq⟩ := map_eq_ok.1 hpacked
      cases heq
      obtain ⟨hgrouped, -, hexact⟩ := exact_of_packSuperName hagrees hname'
      exact ⟨hgrouped, hexact⟩
  · rw [packLeafName, hagrees.columnType, packName_eq_ok] at hcolumn
    exact DataType.exact_of_pack hcolumn.1

/-- A table with the types of a handle accepts its columns. -/
theorem Writes.accepted {w : Store.Write} (hagrees : h.Agrees t) (hcells : t.holdsCounters = false)
    (hw : h.Writes o w) :
    t.Puts w ∧ ∀ key, key ≠ [] → t.verdict key w = .ok () := by
  cases w with
  | column c =>
    obtain ⟨hsuper, column, hc⟩ := hw
    obtain ⟨hexact, htakes⟩ := takes_of_packColumn hagrees hc
    have hflat : t.isSuper = false := hagrees.isSuper.symm.trans hsuper
    -- in a table without super columns the leaves are the columns of the rows
    rw [Store.Table.leafComparator, hflat, if_neg Bool.false_ne_true] at hexact htakes
    refine ⟨⟨hflat, hexact⟩, fun key hkey => ?_⟩
    have hput := Store.Table.putColumn_eq_ok.2 ⟨hcells, hflat, htakes, hkey, rfl⟩
    rw [Store.Table.verdict, Store.Table.write, hput]
    rfl
  | superColumn name columns =>
    obtain ⟨-, ⟨superColumn, hname⟩, -, hcolumns⟩ := hw
    obtain ⟨hgrouped, hne, hexact⟩ := exact_of_packSuperName hagrees hname
    have htakes : ∀ c ∈ columns, Exact t.subcomparator.Accepts t.subcomparator.compare c.name ∧
        t.Takes t.subcomparator c := by
      intro c hc
      obtain ⟨column, hcolumn⟩ := hcolumns c hc
      have h := takes_of_packColumn hagrees hcolumn
      rw [Store.Table.leafComparator, hgrouped, if_pos rfl] at h
      exact h
    refine ⟨⟨hgrouped, hexact, fun c hc => (htakes c hc).1⟩, fun key hkey => ?_⟩
    have hput := Store.Table.putSuper_eq_ok.2
      ⟨hcells, hgrouped, ⟨hne, hexact.holds⟩, fun c hc => (htakes c hc).2, hkey, rfl⟩
    rw [Store.Table.verdict, Store.Table.write, hput]
    rfl
  | increment => exact hw.elim
  | delete => exact hw.elim

/-- Packed keys are not empty. -/
theorem ne_nil_of_packKey {key : Value} {packed : Bytes} (hkey : h.packKey key = .ok packed) :
    packed ≠ [] := by
  simp only [packKey, bind_eq_ok] at hkey
  obtain ⟨bs, -, hkey⟩ := hkey
  split at hkey
  · cases hkey
  · next hempty =>
    cases hkey
    exact fun hnil => hempty (List.isEmpty_iff.2 hnil)

end Handle

end WideColumn
