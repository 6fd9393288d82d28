import WideColumn.Consistency
import WideColumn.Index
import WideColumn.Mutation
import WideColumn.Schema

/-!
# Remote calls

The operations of a server, each with the type of its answer, and the ways a call can fail. A
failure is transient if the same call may succeed on another session.
-/

namespace WideColumn

/-- Why a remote call failed. -/
inductive RpcError where
  | timedOut
  | unavailable
  | transport (detail : String)
  | notFound
  | invalidRequest (detail : String)
  | authenticationFailed (detail : String)
  deriving DecidableEq, Repr

namespace RpcError

/-- Whether the call may succeed on another session. -/
def isTransient : RpcError → Bool
  | .timedOut | .unavailable | .transport _ => true
  | .notFound | .invalidRequest _ | .authenticationFailed _ => false

def message : RpcError → String
  | .timedOut => "timed out"
  | .unavailable => "unavailable"
  | .transport detail => "transport error: " ++ detail
  | .notFound => "not found"
  | .invalidRequest detail => "invalid request: " ++ detail
  | .authenticationFailed detail => "authentication failed: " ++ detail

end RpcError

/-- A remote call whose answer has the type of its index. -/
inductive Rpc : Type → Type where
  /-- The selected entries of a row. -/
  | getSlice (key : Bytes) (parent : ColumnParent) (predicate : SlicePredicate)
      (level : Consistency) : Rpc (List Entry)
  /-- The number of selected entries of a row. -/
  | getCount (key : Bytes) (parent : ColumnParent) (predicate : SlicePredicate)
      (level : Consistency) : Rpc Int32
  /-- The selected entries of several rows; each distinct key answers once. -/
  | multigetSlice (keys : List Bytes) (parent : ColumnParent) (predicate : SlicePredicate)
      (level : Consistency) : Rpc (List (Bytes × List Entry))
  /-- The numbers of selected entries of several rows; each distinct key answers once. -/
  | multigetCount (keys : List Bytes) (parent : ColumnParent) (predicate : SlicePredicate)
      (level : Consistency) : Rpc (List (Bytes × Int32))
  /-- The rows of a key range. -/
  | getRangeSlices (parent : ColumnParent) (predicate : SlicePredicate) (range : KeyRange)
      (level : Consistency) : Rpc (List RowSlice)
  /-- The rows that satisfy a clause. -/
  | getIndexedSlices (parent : ColumnParent) (clause : IndexClause) (predicate : SlicePredicate)
      (level : Consistency) : Rpc (List RowSlice)
  /-- Applies a batch. -/
  | batchMutate (mutations : MutationMap) (level : Consistency) : Rpc Unit
  /-- Removes cells. -/
  | remove (key : Bytes) (path : ColumnPath) (timestamp : Int64) (level : Consistency) : Rpc Unit
  /-- Removes counters. -/
  | removeCounter (key : Bytes) (path : ColumnPath) (level : Consistency) : Rpc Unit
  /-- Adds to a counter. -/
  | add (key : Bytes) (parent : ColumnParent) (counter : Counter) (level : Consistency) : Rpc Unit
  /-- Removes all rows of a table. -/
  | truncate (table : String) : Rpc Unit
  /-- The definition of a keyspace. -/
  | describeKeyspace (name : String) : Rpc KeyspaceDef

/-- The name of an operation. -/
def Rpc.operation {α : Type} : Rpc α → String
  | .getSlice .. => "get_slice"
  | .getCount .. => "get_count"
  | .multigetSlice .. => "multiget_slice"
  | .multigetCount .. => "multiget_count"
  | .getRangeSlices .. => "get_range_slices"
  | .getIndexedSlices .. => "get_indexed_slices"
  | .batchMutate .. => "batch_mutate"
  | .remove .. => "remove"
  | .removeCounter .. => "remove_counter"
  | .add .. => "add"
  | .truncate .. => "truncate"
  | .describeKeyspace .. => "describe_keyspace"

end WideColumn
