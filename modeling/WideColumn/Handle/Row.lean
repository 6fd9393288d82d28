import WideColumn.Consistency
import WideColumn.Value

/-!
# Rows in logical values

What a handle reads and writes: cells and rows with unpacked names and values, the columns of a
write, and its settings.
-/

namespace WideColumn

/-- A column, a counter, or a super column with what is inside. -/
inductive Cell where
  | column (name value : Value) (timestamp : Int64) (ttl : Option Int32)
  | counter (name : Value) (count : Int64)
  | super (name : Value) (cells : List Cell)

namespace Cell

/-- The name of a cell. -/
def name : Cell → Value
  | .column name .. => name
  | .counter name _ => name
  | .super name _ => name

/-- The value of a column. -/
def value? : Cell → Option Value
  | .column _ value _ _ => some value
  | _ => none

/-- The count of a counter. -/
def count? : Cell → Option Int64
  | .counter _ count => some count
  | _ => none

/-- The moment a column was written. -/
def timestamp? : Cell → Option Int64
  | .column _ _ timestamp _ => some timestamp
  | _ => none

/-- The cells inside a super column. -/
def cells : Cell → List Cell
  | .super _ cells => cells
  | _ => []

def get? (c : Cell) (name : Value) : Option Cell := c.cells.find? fun c => c.name == name

end Cell

/-- A row as it was read. -/
structure Row where
  key : Value
  cells : List Cell

namespace Row

def get? (r : Row) (name : Value) : Option Cell := r.cells.find? fun c => c.name == name

/-- The value of the first cell of a name, if it is a column. -/
def value? (r : Row) (name : Value) : Option Value := r.get? name >>= Cell.value?

/-- The count of the first cell of a name, if it is a counter. -/
def count? (r : Row) (name : Value) : Option Int64 := r.get? name >>= Cell.count?

def names (r : Row) : List Value := r.cells.map Cell.name

end Row

/-- The columns to write to a row, inside super columns or not. -/
inductive NewColumns where
  | flat (columns : List (Value × Value))
  | grouped (supers : List (Value × List (Value × Value)))

namespace NewColumns

/-- Whether the columns are inside super columns. -/
def isSuper : NewColumns → Bool
  | .flat _ => false
  | .grouped _ => true

/-- Whether there is no column to write. -/
def isEmpty : NewColumns → Bool
  | .flat columns => columns.isEmpty
  | .grouped supers => supers.all fun (_, columns) => columns.isEmpty

end NewColumns

/-- The settings of one write. -/
structure WriteOptions where
  timestamp : Int64
  ttl : Option Int32
  /-- Replaces the level of the handle. -/
  level : Option Consistency

end WideColumn
