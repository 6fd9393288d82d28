import WideColumn.Bytes

/-!
# Keyspace definitions

The metadata of a keyspace and its tables, with types given by class name. Resolving those names is
the business of a type registry.
-/

namespace WideColumn

/-- Whether the columns of a table are grouped under super columns. -/
inductive ColumnLayout where
  | standard
  | super
  deriving DecidableEq, Repr

/-- A declared column: its packed name, the type of its values, and whether it is indexed. -/
structure ColumnDef where
  name : Bytes
  validation : String
  indexed : Bool
  indexName : Option String
  deriving DecidableEq, Repr

/-- The metadata of a table. On a super table `comparator` orders the super columns and
`subcomparator` the columns inside them. -/
structure TableDef where
  keyspace : String
  name : String
  layout : ColumnLayout
  comparator : String
  subcomparator : Option String
  validation : String
  keyValidation : String
  columns : List ColumnDef
  deriving DecidableEq, Repr

namespace TableDef

/-- A standard table of opaque bytes. -/
def ofName (keyspace name : String) : TableDef :=
  { keyspace, name, layout := .standard, comparator := "BytesType", subcomparator := none,
    validation := "BytesType", keyValidation := "BytesType", columns := [] }

def isSuper (t : TableDef) : Bool := t.layout == .super

/-- The first declaration of a column. -/
def column? (t : TableDef) (name : Bytes) : Option ColumnDef :=
  t.columns.find? fun c => c.name == name

end TableDef

/-- The metadata of a keyspace. -/
structure KeyspaceDef where
  name : String
  strategy : String
  replication : UInt32
  tables : List TableDef
  deriving DecidableEq, Repr

namespace KeyspaceDef

/-- A keyspace without tables. -/
def ofName (name : String) : KeyspaceDef :=
  { name, strategy := "SimpleStrategy", replication := 1, tables := [] }

/-- Adds a table and makes it one of this keyspace. -/
def withTable (k : KeyspaceDef) (t : TableDef) : KeyspaceDef :=
  { k with tables := k.tables ++ [{ t with keyspace := k.name }] }

/-- The first table of a name. -/
def table? (k : KeyspaceDef) (name : String) : Option TableDef :=
  k.tables.find? fun t => t.name == name

end KeyspaceDef

end WideColumn
