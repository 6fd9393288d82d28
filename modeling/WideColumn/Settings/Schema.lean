import WideColumn.Json.Decode
import WideColumn.Json.Encode
import WideColumn.Schema
import WideColumn.Text.Utf8

/-!
# Definitions as JSON

Reads and writes the definition of a keyspace with its tables and their declared columns. Only
optional fields may be missing. Bytes are written as the list of their numbers.
-/

namespace WideColumn

open Json

/-! ## Columns -/

/-- Reads bytes: a list of their numbers, or a string for the UTF-8 bytes of its code points. -/
def Bytes.ofJson? : Json → Option Bytes
  | .array items => items.mapM fun j => (asNat? UInt8.size j).map UInt8.ofNat
  | .string points | .rawString points => some (points.flatMap Utf8.encodePoint)
  | _ => none

def Bytes.toJson (bs : Bytes) : Json := ofList (fun b : UInt8 => ofNat b.toNat) bs

/-- Reads a declared column. -/
def ColumnDef.ofJson? (j : Json) : Option ColumnDef := do
  match ← fields? ["name", "validation_class", "index_type", "index_name"] j with
  | (inArray, [name, validation, index, indexName]) =>
    let keys (s : String) : Option Unit := if s = "Keys" then some () else none
    return {
      name := ← needed? Bytes.ofJson? name
      validation := ← needed? asText? validation
      indexed := (← absent? (asChoice? keys) inArray index).isSome
      indexName := ← absent? asText? inArray indexName }
  | _ => none

/-- Writes a declared column. -/
def ColumnDef.toJson (c : ColumnDef) : Json :=
  ofFields [
    ("name", Bytes.toJson c.name),
    ("validation_class", ofText c.validation),
    ("index_type", if c.indexed then ofText "Keys" else .null),
    ("index_name", ofOption ofText c.indexName)]

/-! ## Tables and keyspaces -/

/-- Reads the layout of a table by its name in definitions. -/
def ColumnLayout.ofJson? : Json → Option ColumnLayout :=
  asChoice? fun s =>
    if s = "Standard" then some .standard else if s = "Super" then some .super else none

/-- Writes the layout of a table by its name in definitions. -/
def ColumnLayout.toJson : ColumnLayout → Json
  | .standard => ofText "Standard"
  | .super => ofText "Super"

/-- Reads a table definition. -/
def TableDef.ofJson? (j : Json) : Option TableDef := do
  match ← fields? ["keyspace", "name", "column_type", "comparator_type", "subcomparator_type",
      "default_validation_class", "key_validation_class", "column_metadata"] j with
  | (inArray, [keyspace, name, layout, comparator, subcomparator, validation, keyValidation,
      columns]) =>
    return {
      keyspace := ← needed? asText? keyspace
      name := ← needed? asText? name
      layout := ← needed? ColumnLayout.ofJson? layout
      comparator := ← needed? asText? comparator
      subcomparator := ← absent? asText? inArray subcomparator
      validation := ← needed? asText? validation
      keyValidation := ← needed? asText? keyValidation
      columns := ← needed? (asList? ColumnDef.ofJson?) columns }
  | _ => none

/-- Writes a table definition. -/
def TableDef.toJson (t : TableDef) : Json :=
  ofFields [
    ("keyspace", ofText t.keyspace),
    ("name", ofText t.name),
    ("column_type", t.layout.toJson),
    ("comparator_type", ofText t.comparator),
    ("subcomparator_type", ofOption ofText t.subcomparator),
    ("default_validation_class", ofText t.validation),
    ("key_validation_class", ofText t.keyValidation),
    ("column_metadata", ofList ColumnDef.toJson t.columns)]

/-- Reads a keyspace definition. -/
def KeyspaceDef.ofJson? (j : Json) : Option KeyspaceDef := do
  match ← fields? ["name", "strategy_class", "replication_factor", "cf_defs"] j with
  | (_, [name, strategy, replication, tables]) =>
    return {
      name := ← needed? asText? name
      strategy := ← needed? asText? strategy
      replication := UInt32.ofNat (← needed? (asNat? UInt32.size) replication)
      tables := ← needed? (asList? TableDef.ofJson?) tables }
  | _ => none

/-- Writes a keyspace definition. -/
def KeyspaceDef.toJson (k : KeyspaceDef) : Json :=
  ofFields [
    ("name", ofText k.name),
    ("strategy_class", ofText k.strategy),
    ("replication_factor", ofNat k.replication.toNat),
    ("cf_defs", ofList TableDef.toJson k.tables)]

end WideColumn
