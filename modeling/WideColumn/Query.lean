import WideColumn.DataType.Pack
import WideColumn.Error
import WideColumn.Slice

/-!
# Queries

What an application asks for, in logical values: columns of a row, a range of rows, or rows that
satisfy conditions. `SliceQuery.predicate` packs a column selection under a comparator.
-/

namespace WideColumn

/-- One end of a slice. -/
inductive Bound where
  | unbounded
  | included (v : Value)
  | excluded (v : Value)
  deriving Inhabited

/-- The columns wanted from each row. `start` and `finish` follow the reading order, and names take
precedence over them. -/
structure SliceQuery where
  names : Option (List Value)
  start : Bound
  finish : Bound
  reversed : Bool
  count : Int32
  superColumn : Option Value
  level : Option Consistency

def SliceQuery.defaultCount : Int32 := 100

/-- The first columns of each row. -/
def SliceQuery.default : SliceQuery where
  names := none
  start := .unbounded
  finish := .unbounded
  reversed := false
  count := defaultCount
  superColumn := none
  level := none

instance : Inhabited SliceQuery := ⟨.default⟩

/-- Packs an exact name, which must not come out empty. -/
def packName (comparator : DataType) (name : Value) : Except ClientError Bytes := do
  let packed ← liftMarshal (comparator.pack name .name)
  if packed.isEmpty then invalid .emptyName else return packed

/-- Packs one end of a slice; `lower` says whether it is the lower end in comparator order. An end
that leaves its name out needs a composite comparator. -/
def packBound (comparator : DataType) (lower : Bool) : Bound → Except ClientError Bytes
  | .unbounded => .ok []
  | .included v => liftMarshal (comparator.pack v (.bound (sliceEnd lower true)))
  | .excluded v =>
    if comparator.isComposite then
      liftMarshal (comparator.pack v (.bound (sliceEnd lower false)))
    else invalid (.exclusiveBound comparator)
where
  /-- The slice end in comparator order. -/
  sliceEnd (lower inclusive : Bool) : SliceEnd := if lower then .start inclusive
  else .finish inclusive

/-- Packs a list of exact names, which must not be empty. -/
def packNames (comparator : DataType) (names : List Value) : Except ClientError SlicePredicate :=
  if names.isEmpty then invalid .noNames
  else SlicePredicate.ofNames <$> names.mapM (packName comparator)

/-- Packs the columns of a query. -/
def SliceQuery.predicate (comparator : DataType) (q : SliceQuery) :
    Except ClientError SlicePredicate :=
  match q.names with
  | some names => packNames comparator names
  | none => do
    if q.count < 0 then invalid (.negativeCount q.count)
    let start ← packBound comparator (!q.reversed) q.start
    let finish ← packBound comparator q.reversed q.finish
    return .ofRange ⟨start, finish, q.reversed, q.count⟩

/-- A scan over a range of row keys. -/
structure RangeQuery where
  start : Option Value
  finish : Option Value
  /-- The number of rows wanted. -/
  limit : Option Nat
  /-- The number of rows of a page. -/
  bufferSize : Option Nat
  slice : SliceQuery

/-- One condition on a column's value. -/
structure IndexCondition where
  column : Value
  op : IndexOperator
  value : Value

/-- A scan over the rows that satisfy conditions. -/
structure IndexQuery where
  conditions : List IndexCondition
  start : Option Value
  /-- The number of rows wanted. -/
  limit : Option Nat
  /-- The number of rows of a page. -/
  bufferSize : Option Nat

/-- A scan over the rows that satisfy conditions, of which there has to be one. -/
def IndexQuery.ofConditions (conditions : List IndexCondition) : Except ClientError IndexQuery :=
  if conditions.isEmpty then invalid .emptyClause else .ok ⟨conditions, none, none, none⟩

end WideColumn
