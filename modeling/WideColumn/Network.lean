import WideColumn.Rpc

/-!
# Networks

What a client needs of the servers it talks to: sessions that can be opened, used and closed. A
network is a state `ω` that every step may change, so whatever decides about success and failure
is part of that state.
-/

namespace WideColumn

/-- A user name with its password. -/
structure Credentials where
  username : String
  password : String
  deriving DecidableEq, Repr

/-- What a client presents when it opens a session. -/
structure Login where
  keyspace : String
  credentials : Option Credentials
  deriving DecidableEq, Repr

/-- The number of a session; no two sessions of a network share one. -/
abbrev SessionId := Nat

/-- Servers that sessions can be opened with. -/
class Network (ω : Type) where
  /-- Whether the owner of the pool closes it just before the next session is opened. -/
  closing : ω → Bool × ω
  /-- Opens a session with a server. -/
  connect : String → Login → ω → Except RpcError SessionId × ω
  /-- Makes a call in a session. -/
  perform : {α : Type} → SessionId → Rpc α → ω → Except RpcError α × ω
  /-- Closes a session. -/
  close : SessionId → ω → ω

end WideColumn
