import WideColumn.Bytes

/-!
# Slices

Which columns of a row, and which rows of a table, an operation is about. An empty bound leaves its
end open.
-/

namespace WideColumn

/-- A run of names from `start` to `finish` in reading order, both ends included. -/
structure SliceRange where
  start : Bytes
  finish : Bytes
  reversed : Bool
  count : Int32
  deriving DecidableEq, Repr

/-- The columns asked for: exact names, else a range, else all. -/
structure SlicePredicate where
  names : Option (List Bytes)
  range : Option SliceRange
  deriving DecidableEq, Repr

namespace SlicePredicate

def ofNames (names : List Bytes) : SlicePredicate := ⟨some names, none⟩

def ofRange (range : SliceRange) : SlicePredicate := ⟨none, some range⟩

def full (count : Int32) : SlicePredicate := ofRange ⟨[], [], false, count⟩

end SlicePredicate

/-- The number of items a count allows; a negative count allows none. -/
def limitOf (count : Int32) : Nat := count.toInt.toNat

def maxCount : Int32 := Int32.maxValue

/-- A number as a count, or the largest count if the number is larger. -/
def countWord (n : Nat) : Int32 := Int32.ofNat (min n maxCount.toInt.toNat)

/-- A run of row keys, both ends included, and the number of rows wanted. -/
structure KeyRange where
  start : Bytes
  finish : Bytes
  count : Int32
  deriving DecidableEq, Repr

/-- The table an operation is about, and the super column for operations inside one. -/
structure ColumnParent where
  table : String
  superColumn : Option Bytes
  deriving DecidableEq, Repr

/-- What a removal is about: a row, a super column, or a single column. -/
structure ColumnPath where
  table : String
  superColumn : Option Bytes
  column : Option Bytes
  deriving DecidableEq, Repr

end WideColumn
