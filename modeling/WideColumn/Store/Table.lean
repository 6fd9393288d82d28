import WideColumn.DataType.Order
import WideColumn.DataType.Registry
import WideColumn.DataType.Unpack
import WideColumn.Index
import WideColumn.Mutation
import WideColumn.Schema
import WideColumn.Store.Refusal
import WideColumn.Store.Row

/-!
# Stored tables

A table keeps its rows in byte order of their keys and checks every write before it takes effect:
names have to decode under the comparator and values under their validator, counters live in counter
tables only, and super columns in super tables only.

- `Table.write` applies one `Write` or refuses it and changes nothing;
- `Mutation.writes` breaks a mutation into such writes;
- `Table.slice` and `Table.satisfies` read a row.

Removing columns never removes their row: a row without columns stays until the table is truncated.
-/

namespace WideColumn

namespace Store

/-- A table: its definition with all types resolved, and its rows. -/
structure Table where
  definition : TableDef
  comparator : DataType
  subcomparator : DataType
  defaultValidator : DataType
  /-- Validators of declared columns; the entry in front counts when a name occurs twice. -/
  validators : List (Bytes × DataType)
  rows : Sorted Bytes RowData

namespace Table

/-- The empty table of a definition. A missing subcomparator stands for opaque bytes, and of two
declarations of a column the later counts. -/
def ofDef (registry : Registry) (definition : TableDef) : Table where
  definition
  comparator := registry.resolve definition.comparator
  subcomparator := registry.resolve (definition.subcomparator.getD "")
  defaultValidator := registry.resolve definition.validation
  validators :=
    (definition.columns.map fun c => (c.name, registry.resolve c.validation)).reverse
  rows := []

def name (t : Table) : String := t.definition.name

def isSuper (t : Table) : Bool := t.definition.isSuper

def holdsCounters (t : Table) : Bool := t.defaultValidator.isCounter

/-- The type of a column's values. -/
def validator (t : Table) (column : Bytes) : DataType :=
  (t.validators.lookup column).getD t.defaultValidator

/-- The order of the names at the top of a row. -/
def order (t : Table) : Bytes → Bytes → Ordering := t.comparator.compare

/-- The order of the names inside a super column. -/
def suborder (t : Table) : Bytes → Bytes → Ordering := t.subcomparator.compare

/-- The type of the names that leaves have. -/
def leafComparator (t : Table) : DataType := if t.isSuper then t.subcomparator else t.comparator

/-! ## Checks -/

/-- A super column may only be named on a super table. -/
def checkParent (t : Table) (superColumn : Option Bytes) : Except Refusal Unit :=
  if superColumn.isSome && !t.isSuper then .error (.superColumnNotAllowed t.name) else .ok ()

/-- The table has to hold counters, or has to hold none. -/
def checkCounters (t : Table) (counters : Bool) : Except Refusal Unit :=
  match t.holdsCounters, counters with
  | true, false => .error (.holdsCounters t.name)
  | false, true => .error (.holdsNoCounters t.name)
  | _, _ => .ok ()

/-- A name has to be non-empty and to decode. -/
def checkName (type : DataType) (name : Bytes) : Except Refusal Unit :=
  if name.isEmpty then .error .emptyColumnName
  else
    match type.unpack name with
    | .ok _ => .ok ()
    | .error e => .error (.badName e)

/-- A column's name has to decode under a type and its value under its validator. -/
def checkColumn (t : Table) (type : DataType) (c : Column) : Except Refusal Unit := do
  checkName type c.name
  match (t.validator c.name).unpack c.value with
  | .ok _ => return ()
  | .error e => throw (.badValue e)

/-- A row key has to be non-empty. -/
def checkKey (key : Bytes) : Except Refusal Unit :=
  if key.isEmpty then .error .emptyKey else .ok ()

/-! ## Rows -/

/-- The content of a row, if it was ever written. -/
def row? (t : Table) (key : Bytes) : Option RowData := t.rows.find? compare key

def freshRow (t : Table) : RowData := if t.isSuper then .grouped [] else .flat []

/-- Changes a row, which starts out empty if it is new. -/
def alterRow (t : Table) (key : Bytes) (change : RowData → RowData) : Table :=
  { t with rows := t.rows.alter compare key t.freshRow change }

/-- Changes the leaves of a flat row. -/
def onLeaves (change : Leaves → Leaves) : RowData → RowData
  | .flat leaves => .flat (change leaves)
  | .grouped supers => .grouped supers

/-- Changes the leaves of a super column, which starts out empty if it is new. -/
def onSuper (t : Table) (superColumn : Bytes) (change : Leaves → Leaves) : RowData → RowData
  | .flat leaves => .flat leaves
  | .grouped supers => .grouped (supers.alter t.order superColumn [] change)

/-! ## Reading -/

/-- The entry that answers for a super column. -/
def superEntry (t : Table) (name : Bytes) (leaves : Leaves) : Entry :=
  if t.holdsCounters then .superCounter name leaves.counters
  else .superColumn name leaves.columns

/-- The entries of a row, or of one of its super columns, that a predicate selects. -/
def slice (t : Table) (row : RowData) (superColumn : Option Bytes) (predicate : SlicePredicate) :
    List Entry :=
  match row, superColumn with
  | .flat leaves, _ => Leaves.toEntries (select t.order predicate leaves)
  | .grouped supers, none =>
    (select t.order predicate supers).map fun (name, leaves) => t.superEntry name leaves
  | .grouped supers, some superColumn =>
    match supers.find? t.order superColumn with
    | some leaves => Leaves.toEntries (select t.suborder predicate leaves)
    | none => []

/-- Whether every condition holds of the row's own cells. -/
def satisfies (t : Table) (row : RowData) (expressions : List IndexExpression) : Bool :=
  match row with
  | .grouped _ => false
  | .flat leaves =>
    expressions.all fun e =>
      match leaves.find? t.order e.column with
      | some (.cell value _ _) => e.op.holds ((t.validator e.column).compare value e.value)
      | _ => false

/-! ## Deleting -/

/-- A row after a deletion. Super columns left without leaves go too. -/
def deleteFrom (t : Table) (d : Deletion) (row : RowData) : RowData :=
  match row, d.superColumn with
  | .flat leaves, _ => .flat (leaves.delete t.order d.predicate d.timestamp)
  | .grouped supers, none =>
    let doomed := selectedNames t.order d.predicate supers
    let left := supers.map fun (name, leaves) =>
      (name, if doomed.contains name then leaves.delete t.suborder none d.timestamp else leaves)
    .grouped (left.filter fun (_, leaves) => !leaves.isEmpty)
  | .grouped supers, some superColumn =>
    match supers.index? t.order superColumn with
    | none => .grouped supers
    | some i =>
      let left := supers.modify i fun (name, leaves) =>
        (name, leaves.delete t.suborder d.predicate d.timestamp)
      match left[i]? with
      | some (_, []) => .grouped (left.eraseIdx i)
      | _ => .grouped left

/-- The table after a deletion in a row; a row that was never written stays so. -/
def delete (t : Table) (key : Bytes) (d : Deletion) : Except Refusal Table := do
  t.checkParent d.superColumn
  match t.row? key with
  | none => return t
  | some row => return { t with rows := t.rows.set compare key (t.deleteFrom d row) }

/-! ## Writing -/

/-- The table after an increment of a counter. -/
def increment (t : Table) (key : Bytes) (superColumn : Option Bytes) (c : Counter) :
    Except Refusal Table := do
  t.checkCounters true
  t.checkParent superColumn
  if t.isSuper && superColumn.isNone then throw .counterNeedsSuperColumn
  checkName t.leafComparator c.name
  checkKey key
  match superColumn with
  | none => return t.alterRow key (onLeaves (Leaves.increment t.order c))
  | some superColumn =>
    return t.alterRow key (t.onSuper superColumn (Leaves.increment t.suborder c))

/-- The table after a column was written at the top of a row. -/
def putColumn (t : Table) (key : Bytes) (c : Column) : Except Refusal Table := do
  t.checkCounters false
  if t.isSuper then throw .needsSuperColumn
  t.checkColumn t.comparator c
  checkKey key
  return t.alterRow key (onLeaves (Leaves.put t.order c))

/-- The table after columns were written into a super column, all of them or none. -/
def putSuper (t : Table) (key superColumn : Bytes) (columns : List Column) :
    Except Refusal Table := do
  t.checkCounters false
  if !t.isSuper then throw (.notSuper t.name)
  checkName t.comparator superColumn
  columns.forM (t.checkColumn t.subcomparator)
  checkKey key
  return t.alterRow key (t.onSuper superColumn fun leaves =>
    columns.foldl (fun leaves c => leaves.put t.suborder c) leaves)

end Table

/-- A change of one row that happens as a whole or not at all. -/
inductive Write where
  | column (c : Column)
  | superColumn (name : Bytes) (columns : List Column)
  | increment (superColumn : Option Bytes) (c : Counter)
  | delete (d : Deletion)
  deriving DecidableEq, Repr

/-- The table after a write. -/
def Table.write (t : Table) (key : Bytes) : Write → Except Refusal Table
  | .column c => t.putColumn key c
  | .superColumn name columns => t.putSuper key name columns
  | .increment superColumn c => t.increment key superColumn c
  | .delete d => t.delete key d

end Store

/-- The writes that a mutation stands for, in order. Each counter of a super column is a write of
its own. -/
def Mutation.writes : Mutation → List Store.Write
  | .insert (.column c) => [.column c]
  | .insert (.superColumn name columns) => [.superColumn name columns]
  | .insert (.counter c) => [.increment none c]
  | .insert (.superCounter name counters) => counters.map fun c => .increment (some name) c
  | .delete d => [.delete d]

end WideColumn
