import WideColumn.DataType.Basic

/-!
# Refusals

Why a store turns a request down. A refusal changes nothing by itself; `Refusal.message` is its
wording.
-/

namespace WideColumn

/-- Why a store turns a request down. -/
inductive Refusal where
  | superColumnNotAllowed (table : String)
  | holdsCounters (table : String)
  | holdsNoCounters (table : String)
  | emptyColumnName
  | badName (cause : MarshalError)
  | badValue (cause : MarshalError)
  | emptyKey
  | needsSuperColumn
  | notSuper (table : String)
  | counterNeedsSuperColumn
  | unknownTable (table : String)
  | startAfterEnd
  | indexOnSuperTable
  | noIndexedColumn
  deriving DecidableEq, Repr

def Refusal.message : Refusal → String
  | .superColumnNotAllowed table =>
    s!"{table} is a standard column family; super_column is not allowed"
  | .holdsCounters table => s!"{table} holds counters; use add or remove_counter"
  | .holdsNoCounters table => s!"{table} does not hold counters"
  | .emptyColumnName => "column name must not be empty"
  | .badName cause => "invalid column name: " ++ cause.message
  | .badValue cause => "invalid column value: " ++ cause.message
  | .emptyKey => "key may not be empty"
  | .needsSuperColumn => "a super column family needs a super column mutation"
  | .notSuper table => s!"{table} is a standard column family"
  | .counterNeedsSuperColumn => "a super counter column family needs a super column"
  | .unknownTable table => s!"unconfigured column family {table}"
  | .startAfterEnd => "start key must sort before end key"
  | .indexOnSuperTable => "secondary indexes are not supported on super column families"
  | .noIndexedColumn => "no indexed columns present in index clause"

end WideColumn
