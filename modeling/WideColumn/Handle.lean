import WideColumn.DataType.Unpack
import WideColumn.Handle.Row
import WideColumn.Handle.Schema
import WideColumn.Mutation
import WideColumn.Query

/-!
# Table handles

A handle knows the schema of one table. This module holds what it computes without a network:
packing keys, names and values into requests and mutations, and unpacking what comes back.

- `Handle.packKey`, `Handle.parent` and `Handle.predicate` make up read requests;
- `Handle.insertMutations`, `Handle.deletion` and `Handle.counterMutation` make up writes;
- `Handle.decode` reads entries back as cells.
-/

namespace WideColumn

/-- A handle of one table. -/
structure Handle where
  schema : TableSchema
  options : HandleOptions

namespace Handle

def name (h : Handle) : String := h.schema.name

/-! ## Keys and names -/

/-- Packs a row key, which must not come out empty. -/
def packKey (h : Handle) (key : Value) : Except ClientError Bytes := do
  let packed ← liftMarshal (h.schema.keyType.pack key .value)
  if packed.isEmpty then invalid .emptyKey else return packed

/-- Packs an optional row key; a missing one leaves its end of a range open. -/
def packKeyEnd (h : Handle) : Option Value → Except ClientError Bytes
  | some key => h.packKey key
  | none => .ok []

/-- Unpacks a row key. -/
def unpackKey (h : Handle) (key : Bytes) : Except ClientError Value :=
  liftMarshal (h.schema.keyType.unpack key)

/-- Packs the name of a leaf. -/
def packLeafName (h : Handle) (name : Value) : Except ClientError Bytes :=
  packName h.schema.columnType name

/-- Packs the name of a super column. -/
def packSuperName (h : Handle) (superColumn : Value) : Except ClientError Bytes :=
  match h.schema.superType with
  | some superType => packName superType superColumn
  | none => invalid (.notSuper h.name)

/-- Packs the name of a super column, if one is given. -/
def packSuperColumn (h : Handle) : Option Value → Except ClientError (Option Bytes)
  | some superColumn => some <$> h.packSuperName superColumn
  | none => .ok none

/-! ## Requests -/

/-- The table, and the super column if one is given. -/
def parent (h : Handle) (superColumn : Option Value) : Except ClientError ColumnParent := do
  return ⟨h.name, ← h.packSuperColumn superColumn⟩

/-- The columns of a query. -/
def predicate (h : Handle) (q : SliceQuery) : Except ClientError SlicePredicate :=
  q.predicate (h.schema.sliceType q.superColumn.isSome)

def readLevel (h : Handle) (q : SliceQuery) : Consistency := q.level.getD h.options.readLevel

def writeLevel (h : Handle) (o : WriteOptions) : Consistency := o.level.getD h.options.writeLevel

/-- The table has to hold counters, or has to hold none. -/
def checkCounters (h : Handle) (counters : Bool) : Except ClientError Unit :=
  match h.schema.kind.isCounter, counters with
  | true, false => invalid (.counterTable h.name)
  | false, true => invalid (.notCounterTable h.name)
  | _, _ => .ok ()

/-! ## Mutations -/

/-- Packs a column of a write. The value is packed by the validator of the packed name. -/
def packColumn (h : Handle) (o : WriteOptions) (column : Value × Value) :
    Except ClientError Column := do
  let name ← h.packLeafName column.1
  let value ← liftMarshal ((h.schema.validator name).pack column.2 .value)
  return { name, value, timestamp := o.timestamp, ttl := o.ttl }

/-- The mutations that write columns. Super columns without columns are left out. -/
def insertMutations (h : Handle) (columns : NewColumns) (o : WriteOptions) :
    Except ClientError (List Mutation) := do
  h.checkCounters false
  if columns.isSuper != h.schema.kind.isSuper then
    invalid (.wrongLayout columns.isSuper h.schema.kind.word h.name)
  if columns.isEmpty then invalid .noColumns
  match columns with
  | .flat columns => columns.mapM fun column => do
      return .insert (.column (← h.packColumn o column))
  | .grouped supers =>
    (supers.filter fun (_, columns) => !columns.isEmpty).mapM fun (superColumn, columns) => do
      let name ← h.packSuperName superColumn
      return .insert (.superColumn name (← columns.mapM (h.packColumn o)))

/-- The mutation that removes a row, some columns, or a super column or part of it. -/
def deletion (h : Handle) (names : Option (List Value)) (superColumn : Option Value)
    (timestamp : Int64) : Except ClientError Mutation := do
  let predicate ←
    match names with
    | some names => some <$> packNames (h.schema.sliceType superColumn.isSome) names
    | none => pure none
  let superColumn ← h.packSuperColumn superColumn
  return .delete { timestamp := some timestamp, superColumn, predicate }

/-- The mutation that adds to a counter. -/
def counterMutation (h : Handle) (column : Value) (amount : Int64) (superColumn : Option Value) :
    Except ClientError Mutation := do
  h.checkCounters true
  let counter : Counter := ⟨← h.packLeafName column, amount⟩
  match ← h.packSuperColumn superColumn with
  | some name => return .insert (.superCounter name [counter])
  | none =>
    if h.schema.kind.isSuper then invalid .counterNeedsSuperColumn
    else return .insert (.counter counter)

/-- What a removal of a row, a super column or a single column addresses, or nothing if the names
are not a single one. A single name at the top of a super table is a super column. -/
def removalPath (h : Handle) (names : Option (List Value)) (superColumn : Option Value) :
    Except ClientError (Option ColumnPath) :=
  match names with
  | none => do return some ⟨h.name, ← h.packSuperColumn superColumn, none⟩
  | some [name] => do
    let name ← packName (h.schema.sliceType superColumn.isSome) name
    if h.schema.kind.isSuper && superColumn.isNone then return some ⟨h.name, some name, none⟩
    else return some ⟨h.name, ← h.packSuperColumn superColumn, some name⟩
  | some _ => .ok none

/-! ## Decoding -/

/-- Unpacks a column. -/
def decodeColumn (h : Handle) (c : Column) : Except ClientError Cell := do
  let name ← liftMarshal (h.schema.columnType.unpack c.name)
  let value ← liftMarshal ((h.schema.validator c.name).unpack c.value)
  return .column name value c.timestamp c.ttl

/-- Unpacks a counter. -/
def decodeCounter (h : Handle) (c : Counter) : Except ClientError Cell := do
  return .counter (← liftMarshal (h.schema.columnType.unpack c.name)) c.value

/-- Unpacks an entry of a row. -/
def decodeEntry (h : Handle) : Entry → Except ClientError Cell
  | .column c => h.decodeColumn c
  | .counter c => h.decodeCounter c
  | .superColumn name columns => do
    let name ← liftMarshal ((h.schema.sliceType false).unpack name)
    return .super name (← columns.mapM h.decodeColumn)
  | .superCounter name counters => do
    let name ← liftMarshal ((h.schema.sliceType false).unpack name)
    return .super name (← counters.mapM h.decodeCounter)

/-- Unpacks the entries of a row. -/
def decode (h : Handle) (entries : List Entry) : Except ClientError (List Cell) :=
  entries.mapM h.decodeEntry

/-- Unpacks a row of a scan. -/
def decodeRow (h : Handle) (row : RowSlice) : Except ClientError Row := do
  let key ← h.unpackKey row.key
  return ⟨key, ← h.decode row.entries⟩

/-- The number of columns that a server answers, which must not be negative. -/
def columnCount (count : Int32) : Except ClientError Nat :=
  if count < 0 then
    .error (.invalidRequest
      ("store returned a negative column count: " ++ toString count.toInt))
  else .ok count.toInt.toNat

end Handle

end WideColumn
