import WideColumn.Json.Token

/-!
# JSON values

Reads a JSON text as a value. The reader goes through the tokens once and keeps the arrays and
objects that are not closed yet on a stack, so it takes any depth. Fields keep their order, and a
name may occur twice.
-/

namespace WideColumn

/-- A JSON value. -/
inductive Json where
  | null
  | bool (b : Bool)
  /-- A number, with its value if it is a whole one. -/
  | number (n : Option Int)
  /-- A string by its code points. -/
  | string (points : List Nat)
  /-- A string with a control character that is not escaped, by its code points. -/
  | rawString (points : List Nat)
  | array (items : List Json)
  | object (fields : List (List Nat × Json))
  deriving Inhabited

namespace Json

/-- An array or object that is not closed yet; its parts are kept backwards. -/
inductive Open where
  | array (items : List Json)
  /-- The fields so far and the name of the one whose value is read. -/
  | object (fields : List (List Nat × Json)) (name : List Nat)

/-- What the next token has to be. -/
inductive Expect where
  /-- A value. -/
  | value
  /-- A value, or the end of an array that has just been opened. -/
  | item
  /-- A field name, or the end of an object that has just been opened. -/
  | field
  /-- A field name of an object with these fields. -/
  | name (fields : List (List Nat × Json))
  /-- The colon after a field name. -/
  | colon (fields : List (List Nat × Json)) (name : List Nat)
  /-- What may follow a complete value. -/
  | after (v : Json)

/-- One token: what is open after it and what has to follow. -/
def read? (stack : List Open) (expect : Expect) (token : Token) : Option (List Open × Expect) :=
  match expect with
  | .value => value? stack token
  | .item =>
    match token with
    | .closeArray => some (stack, .after (.array []))
    | token => value? (.array [] :: stack) token
  | .field =>
    match token with
    | .closeObject => some (stack, .after (.object []))
    | .string name => some (stack, .colon [] name)
    | _ => none
  | .name fields =>
    match token with
    | .string name => some (stack, .colon fields name)
    | _ => none
  | .colon fields name =>
    match token with
    | .colon => some (.object fields name :: stack, .value)
    | _ => none
  | .after v =>
    match stack, token with
    | .array items :: stack, .comma => some (.array (v :: items) :: stack, .value)
    | .array items :: stack, .closeArray => some (stack, .after (.array (v :: items).reverse))
    | .object fields name :: stack, .comma => some (stack, .name ((name, v) :: fields))
    | .object fields name :: stack, .closeObject =>
      some (stack, .after (.object ((name, v) :: fields).reverse))
    | _, _ => none
where
  /-- The token that begins a value. -/
  value? (stack : List Open) : Token → Option (List Open × Expect)
    | .openArray => some (stack, .item)
    | .openObject => some (stack, .field)
    | .null => some (stack, .after .null)
    | .bool b => some (stack, .after (.bool b))
    | .number n => some (stack, .after (.number n))
    | .string points => some (stack, .after (.string points))
    | .rawString points => some (stack, .after (.rawString points))
    | .closeArray | .closeObject | .comma | .colon => none

/-- Reads the rest of the tokens. -/
def readAll? (stack : List Open) (expect : Expect) : List Token → Option Json
  | [] =>
    match stack, expect with
    | [], .after v => some v
    | _, _ => none
  | token :: tokens => do
    let (stack, expect) ← read? stack expect token
    readAll? stack expect tokens

/-- Whether all control characters in the strings of a value are escaped. -/
def isEscaped : Json → Bool
  | .rawString _ => false
  | .array items => allEscaped items
  | .object fields => fieldsEscaped fields
  | .null | .bool _ | .number _ | .string _ => true
where
  /-- The items of an array. -/
  allEscaped : List Json → Bool
    | [] => true
    | v :: items => isEscaped v && allEscaped items
  /-- The fields of an object. -/
  fieldsEscaped : List (List Nat × Json) → Bool
    | [] => true
    | (_, v) :: fields => isEscaped v && fieldsEscaped fields

/-- Reads a text that holds one value and nothing else. -/
def parse? (text : String) : Option Json := tokens? text >>= readAll? [] .value

end Json

end WideColumn
