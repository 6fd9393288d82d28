import WideColumn.Bytes

/-!
# Index clauses

A filter over indexed columns: every expression has to hold of the value a row stores.
-/

namespace WideColumn

/-- How a stored value has to stand to the value of an expression. -/
inductive IndexOperator where
  | eq
  | gte
  | gt
  | lte
  | lt
  deriving DecidableEq, Repr

/-- Whether a stored value that compares like this satisfies the operator. -/
def IndexOperator.holds : IndexOperator → Ordering → Bool
  | .eq, o => o == .eq
  | .gte, o => o != .lt
  | .gt, o => o == .gt
  | .lte, o => o != .gt
  | .lt, o => o == .lt

/-- One packed condition of a clause. -/
structure IndexExpression where
  column : Bytes
  op : IndexOperator
  value : Bytes
  deriving DecidableEq, Repr

/-- The packed conditions, the first row key to look at, and the number of rows wanted. -/
structure IndexClause where
  expressions : List IndexExpression
  start : Bytes
  count : Int32
  deriving DecidableEq, Repr

end WideColumn
