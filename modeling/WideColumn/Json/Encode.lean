import WideColumn.Json

/-!
# Encoding JSON values

Writers of the JSON form of settings, one for each of the readers: `asText?` reads what `ofText`
wrote, and so on. A record is written as an object.
-/

namespace WideColumn.Json

def ofText (s : String) : Json := .string (s.toList.map Char.toNat)

def ofNat (n : Nat) : Json := .number (some n)

def ofList {α : Type} (item : α → Json) (items : List α) : Json := .array (items.map item)

/-- Writes a value, or `null` for its absence. -/
def ofOption {α : Type} (value : α → Json) : Option α → Json
  | some a => value a
  | none => .null

/-- Writes a record, its fields in order. -/
def ofFields (fields : List (String × Json)) : Json :=
  .object (fields.map fun (name, v) => (name.toList.map Char.toNat, v))

end WideColumn.Json
