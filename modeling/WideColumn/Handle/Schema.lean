import WideColumn.DataType.Registry
import WideColumn.Handle.Options
import WideColumn.Schema

/-!
# Table schemas

The types a handle packs and unpacks with, resolved once when it is opened.
-/

namespace WideColumn

/-- The shape of a table. -/
inductive TableKind where
  | standard
  | super
  | counter
  | superCounter
  deriving DecidableEq, Repr

namespace TableKind

/-- The kind of a table with or without super columns and counters. -/
def of (isSuper isCounter : Bool) : TableKind :=
  match isSuper, isCounter with
  | false, false => .standard
  | true, false => .super
  | false, true => .counter
  | true, true => .superCounter

/-- Whether there are super columns. -/
def isSuper : TableKind → Bool
  | .super | .superCounter => true
  | .standard | .counter => false

/-- Whether there are counters. -/
def isCounter : TableKind → Bool
  | .counter | .superCounter => true
  | .standard | .super => false

/-- The word for a kind. -/
def word : TableKind → String
  | .standard => "Standard"
  | .super => "Super"
  | .counter => "Counter"
  | .superCounter => "SuperCounter"

end TableKind

/-- The types of one table. -/
structure TableSchema where
  name : String
  kind : TableKind
  keyType : DataType
  /-- The type of the names of leaves, inside super columns where there are any. -/
  columnType : DataType
  /-- The type of the names of super columns. -/
  superType : Option DataType
  defaultValidator : DataType
  /-- Validators of declared columns; the entry in front counts when a name occurs twice. -/
  validators : List (Bytes × DataType)

namespace TableSchema

/-- Resolves the types of a definition. A type that is not to be packed becomes opaque bytes, except
that counters stay counters. -/
def ofDef (registry : Registry) (options : HandleOptions) (definition : TableDef) : TableSchema :=
  let resolve (className : String) (enabled : Bool) : DataType :=
    if enabled then registry.resolve className else .bytes
  let kind := TableKind.of definition.isSuper (registry.resolve definition.validation).isCounter
  let comparator := resolve definition.comparator options.packNames
  { name := definition.name
    kind
    keyType := resolve definition.keyValidation options.packKeys
    columnType :=
      if kind.isSuper then resolve (definition.subcomparator.getD "") options.packNames
      else comparator
    superType := if kind.isSuper then some comparator else none
    defaultValidator :=
      if kind.isCounter then .counter else resolve definition.validation options.packValues
    validators := (definition.columns.map fun c =>
      (c.name, resolve c.validation options.packValues)).reverse }

/-- The type of a column's values. -/
def validator (s : TableSchema) (column : Bytes) : DataType :=
  (s.validators.lookup column).getD s.defaultValidator

/-- The type of the names that a slice selects: super columns at the top of a super table, leaves
otherwise. -/
def sliceType (s : TableSchema) (inSuperColumn : Bool) : DataType :=
  match s.superType with
  | some superType => if inSuperColumn then s.columnType else superType
  | none => s.columnType

end TableSchema

end WideColumn
