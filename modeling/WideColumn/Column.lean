import WideColumn.Bytes

/-!
# Columns

The entries of a row as they travel: columns with a timestamp, counters, and super columns that
group either kind.
-/

namespace WideColumn

/-- A column: packed name and value, the moment it was written, and its seconds to live. -/
structure Column where
  name : Bytes
  value : Bytes
  timestamp : Int64
  ttl : Option Int32
  deriving DecidableEq, Repr

/-- A counter: its value, or the amount to add to it. -/
structure Counter where
  name : Bytes
  value : Int64
  deriving DecidableEq, Repr

/-- One entry of a row. -/
inductive Entry where
  | column (c : Column)
  | counter (c : Counter)
  | superColumn (name : Bytes) (columns : List Column)
  | superCounter (name : Bytes) (counters : List Counter)
  deriving DecidableEq, Repr

/-- The packed name of an entry. -/
def Entry.name : Entry → Bytes
  | .column c => c.name
  | .counter c => c.name
  | .superColumn name _ => name
  | .superCounter name _ => name

/-- A row as a scan answers it: its key and the entries that were asked for. -/
structure RowSlice where
  key : Bytes
  entries : List Entry
  deriving DecidableEq, Repr

end WideColumn
