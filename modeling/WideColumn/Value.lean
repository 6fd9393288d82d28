import WideColumn.Text.Utf8
import WideColumn.Uuid

/-!
# Logical values

What an application reads and writes as a row key, a column name or a column value, before a data
type turns it into bytes. Composites, lists and maps nest to any depth.

Equality of values is decidable (`beq_eq_true_iff`), `Value.render` is their printed form, and the
`as…` functions read a value as one of the simple kinds.
-/

namespace WideColumn

/-- An application-level key, column name or column value. -/
inductive Value where
  /-- Opaque bytes. -/
  | bytes (b : Bytes)
  /-- Text. -/
  | text (s : String)
  /-- A 64-bit signed integer. -/
  | long (n : Int64)
  /-- A 32-bit signed integer. -/
  | int (n : Int32)
  /-- A truth value. -/
  | boolean (b : Bool)
  /-- Milliseconds since 1970. -/
  | date (n : Int64)
  /-- A UUID of any version. -/
  | uuid (u : Uuid)
  /-- The components of a name or value of several parts. -/
  | composite (components : List Value)
  /-- A list in order. -/
  | list (items : List Value)
  /-- Pairs in order; a key may occur twice. -/
  | map (pairs : List (Value × Value))
  deriving Inhabited

namespace Value

/-! ## Equality -/

mutual

/-- Whether two values have the same kind and the same content. -/
def beq : Value → Value → Bool
  | .bytes a, .bytes b => a == b
  | .text a, .text b => a == b
  | .long a, .long b => a == b
  | .int a, .int b => a == b
  | .boolean a, .boolean b => a == b
  | .date a, .date b => a == b
  | .uuid a, .uuid b => decide (a = b)
  | .composite a, .composite b => beqList a b
  | .list a, .list b => beqList a b
  | .map a, .map b => beqPairs a b
  | _, _ => false

/-- Whether two lists hold the same values. -/
def beqList : List Value → List Value → Bool
  | [], [] => true
  | a :: as, b :: bs => beq a b && beqList as bs
  | _, _ => false

/-- Whether two lists hold the same pairs. -/
def beqPairs : List (Value × Value) → List (Value × Value) → Bool
  | [], [] => true
  | (a, a') :: as, (b, b') :: bs => beq a b && beq a' b' && beqPairs as bs
  | _, _ => false

end

mutual

theorem beq_eq_true_iff : ∀ a b : Value, beq a b = true ↔ a = b
  | .bytes a, b => by cases b <;> simp [beq]
  | .text a, b => by cases b <;> simp [beq]
  | .long a, b => by cases b <;> simp [beq]
  | .int a, b => by cases b <;> simp [beq]
  | .boolean a, b => by cases b <;> simp [beq]
  | .date a, b => by cases b <;> simp [beq]
  | .uuid a, b => by cases b <;> simp [beq]
  | .composite a, b => by cases b <;> simp [beq, beqList_eq_true_iff a]
  | .list a, b => by cases b <;> simp [beq, beqList_eq_true_iff a]
  | .map a, b => by cases b <;> simp [beq, beqPairs_eq_true_iff a]

theorem beqList_eq_true_iff : ∀ a b : List Value, beqList a b = true ↔ a = b
  | [], b => by cases b <;> simp [beqList]
  | x :: xs, b => by
    cases b with
    | nil => simp [beqList]
    | cons y ys => simp [beqList, beq_eq_true_iff x, beqList_eq_true_iff xs]

theorem beqPairs_eq_true_iff : ∀ a b : List (Value × Value), beqPairs a b = true ↔ a = b
  | [], b => by cases b <;> simp [beqPairs]
  | (x, x') :: xs, b => by
    cases b with
    | nil => simp [beqPairs]
    | cons y ys =>
      simp [beqPairs, beq_eq_true_iff x, beq_eq_true_iff x', beqPairs_eq_true_iff xs, Prod.ext_iff]

end

instance : DecidableEq Value := fun a b => decidable_of_iff _ (beq_eq_true_iff a b)

/-! ## Kinds -/

/-- The word for a value's kind in messages. -/
def kind : Value → String
  | .bytes _ => "bytes"
  | .text _ => "text"
  | .long _ => "long"
  | .int _ => "int"
  | .boolean _ => "boolean"
  | .date _ => "date"
  | .uuid _ => "uuid"
  | .composite _ => "composite"
  | .list _ => "list"
  | .map _ => "map"

/-- The text, of a text value. -/
def asText? : Value → Option String
  | .text s => some s
  | _ => none

/-- The number, of an integer of either width or a date. -/
def asLong? : Value → Option Int64
  | .long n | .date n => some n
  | .int n => some n.toInt64
  | _ => none

/-- The truth value, of a boolean. -/
def asBool? : Value → Option Bool
  | .boolean b => some b
  | _ => none

/-- The UUID, of a UUID value. -/
def asUuid? : Value → Option Uuid
  | .uuid u => some u
  | _ => none

/-- The raw bytes, of a bytes value. -/
def asBytes? : Value → Option Bytes
  | .bytes b => some b
  | _ => none

/-- The components, of a composite. -/
def asComponents? : Value → Option (List Value)
  | .composite components => some components
  | _ => none

/-- Whether a value has a size and the size is zero. -/
def isEmpty : Value → Bool
  | .bytes b => b.isEmpty
  | .text s => s.isEmpty
  | .composite components => components.isEmpty
  | .list items => items.isEmpty
  | .map pairs => pairs.isEmpty
  | _ => false

/-! ## Printed form -/

mutual

/-- The printed form of a value: bytes by their number, all else by content. -/
def render : Value → String
  | .bytes b => "<" ++ toString b.length ++ " bytes>"
  | .text s => s
  | .long n | .date n => toString n.toInt
  | .int n => toString n.toInt
  | .boolean b => if b then "true" else "false"
  | .uuid u => u.hyphenated
  | .composite components => "(" ++ ":".intercalate (renderAll components) ++ ")"
  | .list items => "[" ++ ", ".intercalate (renderAll items) ++ "]"
  | .map pairs => "\x7b" ++ ", ".intercalate (renderPairs pairs) ++ "\x7d"

/-- The printed forms of several values. -/
def renderAll : List Value → List String
  | [] => []
  | v :: vs => render v :: renderAll vs

/-- The printed forms of several pairs. -/
def renderPairs : List (Value × Value) → List String
  | [] => []
  | (k, v) :: rest => (render k ++ ": " ++ render v) :: renderPairs rest

end

end Value

end WideColumn
