import WideColumn.Text.Utf8

/-!
# Data types

A data type fixes how keys, names and values of one kind are written as bytes, read back and
ordered. This module holds the types themselves, their class names, the place a value is packed
for, and the reasons packing and unpacking can fail.

- `DataType.className` is the name a schema uses for a type, parameters in parentheses;
- `PackContext` tells an exact name from a slice bound, which some types write differently;
- `MarshalError` names the type and the cause, and `MarshalError.message` gives the wording.
-/

namespace WideColumn

/-- The encodings of keys, names and values. -/
inductive DataType where
  /-- Opaque bytes. -/
  | bytes
  /-- Seven-bit text. -/
  | ascii
  /-- UTF-8 text. -/
  | utf8
  /-- A 64-bit signed integer. -/
  | long
  /-- A 32-bit unsigned integer. -/
  | integer
  /-- A truth value in one byte. -/
  | boolean
  /-- Milliseconds since 1970, written as a long. -/
  | date
  /-- A UUID ordered by its bytes. -/
  | lexicalUuid
  /-- A version 1 UUID ordered by its time. -/
  | timeUuid
  /-- Any UUID, ordered by version and then by time or bytes. -/
  | uuid
  /-- The value of a counter column, written as a long. -/
  | counter
  /-- A name of several components. -/
  | composite (components : List DataType)
  /-- A list of elements of one type. -/
  | list (element : DataType)
  /-- A map with typed keys and values. -/
  | map (key value : DataType)
  deriving Inhabited

namespace DataType

/-! ## Class names -/

/-- The class name of a type without its parameters. -/
def head : DataType → String
  | .bytes => "BytesType"
  | .ascii => "AsciiType"
  | .utf8 => "UTF8Type"
  | .long => "LongType"
  | .integer => "IntegerType"
  | .boolean => "BooleanType"
  | .date => "DateType"
  | .lexicalUuid => "LexicalUUIDType"
  | .timeUuid => "TimeUUIDType"
  | .uuid => "UUIDType"
  | .counter => "CounterColumnType"
  | .composite _ => "CompositeType"
  | .list _ => "ListType"
  | .map _ _ => "MapType"

mutual

/-- The class name of a type, with the class names of its parameters. -/
def className : DataType → String
  | .composite components =>
    "CompositeType(" ++ ",".intercalate (classNames components) ++ ")"
  | .list element => "ListType(" ++ className element ++ ")"
  | .map key value => "MapType(" ++ className key ++ "," ++ className value ++ ")"
  | type => head type

/-- The class names of several types. -/
def classNames : List DataType → List String
  | [] => []
  | t :: ts => className t :: classNames ts

end

/-- Whether names of this type have several components. -/
def isComposite : DataType → Bool
  | .composite _ => true
  | _ => false

/-- Whether this is the type of counters. -/
def isCounter : DataType → Bool
  | .counter => true
  | _ => false

/-! ## Equality -/

mutual

/-- Whether two types are the same, parameters included. -/
def beq : DataType → DataType → Bool
  | .bytes, .bytes | .ascii, .ascii | .utf8, .utf8 | .long, .long | .integer, .integer
  | .boolean, .boolean | .date, .date | .lexicalUuid, .lexicalUuid | .timeUuid, .timeUuid
  | .uuid, .uuid | .counter, .counter => true
  | .composite a, .composite b => beqAll a b
  | .list a, .list b => beq a b
  | .map a a', .map b b' => beq a b && beq a' b'
  | _, _ => false

/-- Whether two parameter lists are the same. -/
def beqAll : List DataType → List DataType → Bool
  | [], [] => true
  | a :: as, b :: bs => beq a b && beqAll as bs
  | _, _ => false

end

mutual

theorem beq_eq_true_iff : ∀ a b : DataType, beq a b = true ↔ a = b
  | .bytes, b | .ascii, b | .utf8, b | .long, b | .integer, b | .boolean, b | .date, b
  | .lexicalUuid, b | .timeUuid, b | .uuid, b | .counter, b => by cases b <;> simp [beq]
  | .composite a, b => by cases b <;> simp [beq, beqAll_eq_true_iff a]
  | .list a, b => by cases b <;> simp [beq, beq_eq_true_iff a]
  | .map k v, b => by cases b <;> simp [beq, beq_eq_true_iff k, beq_eq_true_iff v]

theorem beqAll_eq_true_iff : ∀ a b : List DataType, beqAll a b = true ↔ a = b
  | [], b => by cases b <;> simp [beqAll]
  | x :: xs, b => by
    cases b with
    | nil => simp [beqAll]
    | cons y ys => simp [beqAll, beq_eq_true_iff x, beqAll_eq_true_iff xs]

end

instance : DecidableEq DataType := fun a b => decidable_of_iff _ (beq_eq_true_iff a b)

end DataType

/-! ## Where a value goes -/

/-- The end of a column slice a name is packed for. The start is the lower end in comparator order,
whichever way the slice is read. -/
inductive SliceEnd where
  /-- An exact name. -/
  | exact
  /-- The lower end. -/
  | start (inclusive : Bool)
  /-- The upper end. -/
  | finish (inclusive : Bool)
  deriving DecidableEq, Repr, Inhabited

/-- What a packed value is used for. -/
structure PackContext where
  /-- A column or super column name rather than a key or a value. -/
  isName : Bool
  /-- The slice end, for names. -/
  sliceEnd : SliceEnd
  deriving DecidableEq, Repr, Inhabited

namespace PackContext

/-- For keys and column values. -/
def value : PackContext := ⟨false, .exact⟩

/-- For exact names. -/
def name : PackContext := ⟨true, .exact⟩

/-- For the name at one end of a slice. -/
def bound (sliceEnd : SliceEnd) : PackContext := ⟨true, sliceEnd⟩

/-- The byte that closes the last component of a composite. Minus one places a bound before every
name that extends it, plus one after all of them. -/
def endOfComponent (ctx : PackContext) : UInt8 :=
  if ctx.isName then
    match ctx.sliceEnd with
    | .exact => 0
    | .start inclusive => if inclusive then 0xFF else 1
    | .finish inclusive => if inclusive then 1 else 0xFF
  else 0

end PackContext

/-! ## Failures -/

/-- Why a value has no encoding in a type. Kinds of values are given by their words. -/
inductive PackFault where
  | unexpected (kind : String)
  | notUtf8 (fault : Utf8.Fault)
  | notAscii
  | doesNotFit (n : Int64)
  | notUuid
  | momentOutsideSlice
  | wrongVersion (version : Nat)
  | notComposite (kind : String)
  | notList (kind : String)
  | notMap (kind : String)
  | noComponents
  | tooManyComponents (given declared : Nat)
  | longComponent (index length : Nat)
  | tooManyElements (count : Nat)
  | longElement (length : Nat)
  deriving DecidableEq, Repr

def PackFault.message : PackFault → String
  | .unexpected kind => s!"unexpected {kind} value"
  | .notUtf8 fault => fault.message
  | .notAscii => "contains non-ASCII characters"
  | .doesNotFit n => toString n.toInt ++ " does not fit in 32 unsigned bits"
  | .notUuid => "invalid UUID"
  | .momentOutsideSlice => "a timestamp is only accepted as a slice bound"
  | .wrongVersion version => s!"expected a version 1 UUID, got version {version}"
  | .notComposite kind => s!"expected a composite, got {kind}"
  | .notList kind => s!"expected a list, got {kind}"
  | .notMap kind => s!"expected a map, got {kind}"
  | .noComponents => "no components"
  | .tooManyComponents given declared =>
    s!"{given} components given for {declared} declared types"
  | .longComponent index length => s!"component {index} is {length} bytes long"
  | .tooManyElements count => s!"{count} elements exceed the u16 count"
  | .longElement length => s!"element is {length} bytes long"

/-- Why bytes are not an encoding of a type, apart from their number. -/
inductive EncodingFault where
  | notUtf8 (fault : Utf8.Fault)
  | notAscii
  | tooManyComponents (declared : Nat)
  | trailing (count : Nat)
  deriving DecidableEq, Repr

def EncodingFault.message : EncodingFault → String
  | .notUtf8 fault => fault.message
  | .notAscii => "contains bytes above 0x7F"
  | .tooManyComponents declared => s!"more than {declared} components"
  | .trailing count => s!"{count} trailing bytes"

/-- Why packing or unpacking failed; `type` is the class name without parameters. -/
inductive MarshalError where
  | invalidValue (type : String) (fault : PackFault)
  | truncated (type : String) (expected actual : Nat)
  | invalidEncoding (type : String) (fault : EncodingFault)
  deriving DecidableEq, Repr

def MarshalError.message : MarshalError → String
  | .invalidValue type fault => "cannot pack value as " ++ type ++ ": " ++ fault.message
  | .truncated type expected actual => s!"{type} expects {expected} bytes, got {actual}"
  | .invalidEncoding type fault => "invalid " ++ type ++ " encoding: " ++ fault.message

end WideColumn
