import WideColumn.Handle.Options
import WideColumn.Json.Decode
import WideColumn.Json.Encode

/-!
# Handle settings as JSON

Reads and writes the settings of a table handle. Every missing field has its default; a consistency
level goes by its name.
-/

namespace WideColumn

open Json

def Consistency.ofJson? : Json → Option Consistency := asChoice? ofName?

/-- Writes a consistency level by its name in settings. -/
def Consistency.toJson (level : Consistency) : Json := ofText level.name

/-- Reads handle settings. -/
def HandleOptions.ofJson? (j : Json) : Option HandleOptions := do
  let d := HandleOptions.default
  match ← fields? ["autopack_names", "autopack_values", "autopack_keys", "read_consistency",
      "write_consistency", "buffer_size", "multiget_buffer_size"] j with
  | (_, [packNames, packValues, packKeys, readLevel, writeLevel, bufferSize, multigetSize]) =>
    return {
      packNames := ← defaulted? asBool? d.packNames packNames
      packValues := ← defaulted? asBool? d.packValues packValues
      packKeys := ← defaulted? asBool? d.packKeys packKeys
      readLevel := ← defaulted? Consistency.ofJson? d.readLevel readLevel
      writeLevel := ← defaulted? Consistency.ofJson? d.writeLevel writeLevel
      bufferSize := ← defaulted? (asNat? UInt64.size) d.bufferSize bufferSize
      multigetSize := ← defaulted? (asNat? UInt64.size) d.multigetSize multigetSize }
  | _ => none

/-- Writes handle settings. -/
def HandleOptions.toJson (o : HandleOptions) : Json :=
  ofFields [
    ("autopack_names", .bool o.packNames),
    ("autopack_values", .bool o.packValues),
    ("autopack_keys", .bool o.packKeys),
    ("read_consistency", o.readLevel.toJson),
    ("write_consistency", o.writeLevel.toJson),
    ("buffer_size", ofNat o.bufferSize),
    ("multiget_buffer_size", ofNat o.multigetSize)]

end WideColumn
