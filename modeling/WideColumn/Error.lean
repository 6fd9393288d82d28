import WideColumn.DataType.Basic
import WideColumn.Rpc

/-!
# Client errors

Why an operation of a client failed. `ClientError.ofRpc` turns the failure of a remote call into one
of these; `ClientError.message` is the wording.
-/

namespace WideColumn

/-- What is wrong with a setting or an argument. -/
inductive ConfigFault where
  | emptyKeyspace
  | noServers
  | noPool
  | noRetries
  | noRecycle
  | smallBuffer
  | smallPage (given : Nat)
  | noMultigetBuffer
  | emptyClause
  | noNames
  | emptyName
  | emptyKey
  | negativeCount (given : Int32)
  | exclusiveBound (type : DataType)
  | notSuper (table : String)
  | counterTable (table : String)
  | notCounterTable (table : String)
  /-- Columns in super columns for a table without them, or the other way round; `kind` is the
  word for the table's kind. -/
  | wrongLayout (superColumns : Bool) (kind table : String)
  | noColumns
  | counterNeedsSuperColumn
  deriving DecidableEq

def ConfigFault.message : ConfigFault → String
  | .emptyKeyspace => "keyspace must not be empty"
  | .noServers => "at least one server is required"
  | .noPool => "pool_size must be greater than 0"
  | .noRetries => "max_retries must be greater than 0"
  | .noRecycle => "recycle must be greater than 0"
  | .smallBuffer => "buffer_size must be at least 2"
  | .smallPage given => s!"buffer_size must be at least 2, got {given}"
  | .noMultigetBuffer => "multiget_buffer_size must be greater than 0"
  | .emptyClause => "an index clause needs at least one expression"
  | .noNames => "column name list must not be empty"
  | .emptyName => "column names must not be empty"
  | .emptyKey => "row keys must not be empty"
  | .negativeCount given => "column count must not be negative, got " ++ toString given.toInt
  | .exclusiveBound type =>
    "exclusive slice bounds need a composite comparator, not " ++ type.className
  | .notSuper table => s!"{table} is not a super column family"
  | .counterTable table => s!"{table} is a counter column family"
  | .notCounterTable table => s!"{table} is not a counter column family"
  | .wrongLayout superColumns kind table =>
    (if superColumns then "super" else "standard")
      ++ s!" columns cannot be written to {kind} column family {table}"
  | .noColumns => "no columns to insert"
  | .counterNeedsSuperColumn => "super counter increments need a super column"

/-- Why an operation of a client failed. -/
inductive ClientError where
  | notFound
  | invalidConfig (fault : ConfigFault)
  | retriesExhausted (operation : String) (attempts : Nat) (last : Option RpcError)
  | noServerAvailable (attempts : Nat)
  | poolTimeout (millis : Nat)
  | poolClosed
  | invalidRequest (detail : String)
  | authenticationFailed (detail : String)
  | marshal (e : MarshalError)
  | rpc (e : RpcError)
  deriving DecidableEq

namespace ClientError

def message : ClientError → String
  | .notFound => "not found"
  | .invalidConfig fault => "invalid configuration: " ++ fault.message
  | .retriesExhausted operation attempts _ => s!"{operation} failed after {attempts} attempts"
  | .noServerAvailable attempts =>
    s!"no server available after {attempts} connection attempts"
  | .poolTimeout millis => s!"pool acquisition timeout after {millis}ms"
  | .poolClosed => "connection pool closed"
  | .invalidRequest detail => "invalid request: " ++ detail
  | .authenticationFailed detail => "authentication failed: " ++ detail
  | .marshal e => "marshal error: " ++ e.message
  | .rpc e => "rpc error: " ++ e.message

/-- The failure of a remote call as a failure of the client. -/
def ofRpc : RpcError → ClientError
  | .notFound => .notFound
  | .invalidRequest detail => .invalidRequest detail
  | .authenticationFailed detail => .authenticationFailed detail
  | e => .rpc e

end ClientError

/-- Packing and unpacking as steps of a client. -/
def liftMarshal {α : Type} : Except MarshalError α → Except ClientError α
  | .ok a => .ok a
  | .error e => .error (.marshal e)

/-- The refusal of a setting or an argument. -/
def invalid {α : Type} (fault : ConfigFault) : Except ClientError α :=
  .error (.invalidConfig fault)

end WideColumn
