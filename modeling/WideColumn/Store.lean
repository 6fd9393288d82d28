import WideColumn.Store.Table

/-!
# The store

All tables of one keyspace. Reads answer entries, writes answer the store after them.

- `Store.slice`, `Store.rangeSlices` and `Store.indexedSlices` read;
- `Store.add`, `Store.remove` and `Store.truncate` happen as a whole or not at all;
- `Store.batch` refuses a batch that names an unknown table before it begins, and otherwise applies
  its writes one by one up to the first that is refused.
-/

namespace WideColumn

/-- A keyspace and the content of its tables. -/
structure Store where
  keyspace : KeyspaceDef
  tables : Sorted String Store.Table

namespace Store

/-- The empty store of a keyspace; of two tables of one name the later counts. -/
def ofKeyspace (registry : Registry) (keyspace : KeyspaceDef) : Store where
  keyspace
  tables := keyspace.tables.foldl
    (fun tables t => tables.set compare t.name (Table.ofDef registry t)) []

/-- The table of a name. -/
def table (s : Store) (name : String) : Except Refusal Table :=
  match s.tables.find? compare name with
  | some t => .ok t
  | none => .error (.unknownTable name)

/-- Puts a table in place of the one of that name. -/
def setTable (s : Store) (name : String) (t : Table) : Store :=
  { s with tables := s.tables.set compare name t }

/-! ## Reading -/

/-- The entries of one row that a predicate selects. -/
def slice (s : Store) (key : Bytes) (parent : ColumnParent) (predicate : SlicePredicate) :
    Except Refusal (List Entry) := do
  let t ← s.table parent.table
  t.checkParent parent.superColumn
  match t.row? key with
  | some row => return t.slice row parent.superColumn predicate
  | none => return []

/-- Whether a key lies between two bounds; an empty bound is open. -/
def keyWithin (start finish key : Bytes) : Bool :=
  (start.isEmpty || compare key start != .lt) && (finish.isEmpty || compare key finish != .gt)

/-- The rows of a key range, those without selected entries included. -/
def rangeSlices (s : Store) (parent : ColumnParent) (predicate : SlicePredicate)
    (range : KeyRange) : Except Refusal (List RowSlice) := do
  let t ← s.table parent.table
  t.checkParent parent.superColumn
  if !range.start.isEmpty && !range.finish.isEmpty && compare range.start range.finish == .gt then
    throw .startAfterEnd
  let rows := (t.rows.filter fun (key, _) => keyWithin range.start range.finish key).take
    (limitOf range.count)
  return rows.map fun (key, row) => ⟨key, t.slice row parent.superColumn predicate⟩

/-- The rows from a start key on that satisfy every condition of a clause. One of the conditions
has to be on an indexed column. -/
def indexedSlices (s : Store) (parent : ColumnParent) (clause : IndexClause)
    (predicate : SlicePredicate) : Except Refusal (List RowSlice) := do
  let t ← s.table parent.table
  if t.isSuper then throw .indexOnSuperTable
  let isIndexed (e : IndexExpression) : Bool :=
    ((t.definition.column? e.column).map (·.indexed)).getD false
  if !clause.expressions.any isIndexed then throw .noIndexedColumn
  let rows := (t.rows.filter fun (key, row) =>
    keyWithin clause.start [] key && t.satisfies row clause.expressions).take (limitOf clause.count)
  return rows.map fun (key, row) => ⟨key, t.slice row none predicate⟩

/-- The number of rows of a table, rows without columns included. -/
def rowCount (s : Store) (name : String) : Nat :=
  match s.tables.find? compare name with
  | some t => t.rows.length
  | none => 0

/-- The number of rows of a table that hold something. -/
def liveRowCount (s : Store) (name : String) : Nat :=
  match s.tables.find? compare name with
  | some t => t.rows.countP fun (_, row) => !row.isEmpty
  | none => 0

/-! ## Writing -/

/-- The store after one write to a table. -/
def write (s : Store) (key : Bytes) (name : String) (w : Write) : Except Refusal Store := do
  let t ← s.table name
  return s.setTable name (← t.write key w)

/-- Applies writes in order up to the first that is refused, and answers that refusal. The writes
before it stay. -/
def writeAll : List (Bytes × String × Write) → Store → Except Refusal Unit × Store
  | [], s => (.ok (), s)
  | (key, name, w) :: rest, s =>
    match s.write key name w with
    | .ok s => writeAll rest s
    | .error e => (.error e, s)

/-- The writes of a batch in the order in which they are applied. -/
def batchWrites (m : MutationMap) : List (Bytes × String × Write) :=
  m.toList.flatMap fun (key, name, mutations) =>
    (mutations.flatMap Mutation.writes).map fun w => (key, name, w)

/-- Applies a batch. -/
def batch (m : MutationMap) (s : Store) : Except Refusal Unit × Store :=
  match m.toList.forM fun (_, name, _) => (s.table name).map fun _ => () with
  | .error e => (.error e, s)
  | .ok () => writeAll (batchWrites m) s

/-- The deletion that a path stands for. A path to a super column selects it by name at the top of
the row. -/
def deletionAt (path : ColumnPath) (timestamp : Option Int64) : Deletion :=
  match path.superColumn, path.column with
  | none, none => ⟨timestamp, none, none⟩
  | some superColumn, none => ⟨timestamp, none, some (.ofNames [superColumn])⟩
  | superColumn, some column => ⟨timestamp, superColumn, some (.ofNames [column])⟩

/-- Removes what a path addresses. With a timestamp the table has to hold cells, without one
counters. -/
def remove (s : Store) (key : Bytes) (path : ColumnPath) (timestamp : Option Int64) :
    Except Refusal Store := do
  let t ← s.table path.table
  t.checkCounters timestamp.isNone
  t.checkParent path.superColumn
  return s.setTable path.table (← t.delete key (deletionAt path timestamp))

/-- Adds to a counter. -/
def add (s : Store) (key : Bytes) (parent : ColumnParent) (c : Counter) : Except Refusal Store :=
  s.write key parent.table (.increment parent.superColumn c)

/-- Removes all rows of a table. -/
def truncate (s : Store) (name : String) : Except Refusal Store := do
  let t ← s.table name
  return s.setTable name { t with rows := [] }

end Store

end WideColumn
