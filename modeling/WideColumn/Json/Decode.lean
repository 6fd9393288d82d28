import WideColumn.Json

/-!
# Decoding JSON values

Readers of the JSON form of settings. A record is an object, whose unknown fields are passed over
and whose known fields may occur once each, or an array of its fields in order. Control characters
have to be escaped, also in fields that are passed over; only bytes may hold them as they are.
-/

namespace WideColumn.Json

/-! ## Simple values -/

/-- The text of code points, if none of them is half of a pair. -/
def text? (points : List Nat) : Option String :=
  if points.all Nat.isValidChar then some (String.ofList (points.map Char.ofNat)) else none

/-- Reads a text. -/
def asText? : Json → Option String
  | .string points => text? points
  | _ => none

/-- Reads a truth value. -/
def asBool? : Json → Option Bool
  | .bool b => some b
  | _ => none

/-- Reads a whole number below a bound that is not negative. -/
def asNat? (bound : Nat) : Json → Option Nat
  | .number (some (.ofNat n)) => if n < bound then some n else none
  | _ => none

/-- Reads a list. -/
def asList? {α : Type} (item : Json → Option α) : Json → Option (List α)
  | .array items => items.mapM item
  | _ => none

/-- Reads a value or its absence. -/
def asOption? {α : Type} (value : Json → Option α) : Json → Option (Option α)
  | .null => some none
  | v => some <$> value v

/-- Reads the name of one of several choices: a text, or an object whose only field has that name
and holds nothing. -/
def asChoice? {α : Type} (ofName : String → Option α) : Json → Option α
  | .string points => text? points >>= ofName
  | .object [(points, .null)] => text? points >>= ofName
  | _ => none

/-! ## Records -/

/-- The value of a field that may occur once. -/
def single? (fields : List (List Nat × Json)) (name : String) : Option (Option Json) :=
  match fields.filter fun (points, _) => points == name.toList.map Char.toNat with
  | [] => some none
  | [(_, v)] => some (some v)
  | _ => none

/-- The values of the known fields of a record, and whether it was given as an array. -/
def fields? (names : List String) : Json → Option (Bool × List (Option Json))
  | .object fields =>
    if fields.all fun (points, v) => (text? points).any fun name =>
        names.contains name || v.isEscaped then
      (names.mapM (single? fields)).map (false, ·)
    else none
  | .array items =>
    if items.length ≤ names.length then
      some (true, items.map some ++ List.replicate (names.length - items.length) none)
    else none
  | _ => none

/-- Whether a record has no fields but the known ones. -/
def hasOnly (names : List String) : Json → Bool
  | .object fields =>
    fields.all fun (points, _) => names.any fun name => points == name.toList.map Char.toNat
  | _ => true

/-- Reads a field that has to be there. -/
def needed? {α : Type} (value : Json → Option α) (field : Option Json) : Option α :=
  field >>= value

/-- Reads a field that has a default. -/
def defaulted? {α : Type} (value : Json → Option α) (fallback : α) : Option Json → Option α
  | some v => value v
  | none => some fallback

/-- Reads a field that may be missing from an object, but not from an array. -/
def absent? {α : Type} (value : Json → Option α) (inArray : Bool) : Option Json → Option (Option α)
  | some v => asOption? value v
  | none => if inArray then none else some none

end WideColumn.Json
