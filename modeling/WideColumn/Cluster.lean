import WideColumn.Network
import WideColumn.Store

/-!
# Clusters in memory

A cluster that keeps one keyspace in memory and stands in for real servers. Servers can be taken
down, the next calls of an operation can be made to fail, and logins can be checked.

Every call is counted under its operation, failed ones too. It fails if its session is closed, if
its server is down, or if a failure was queued for the operation, and it reaches the store only
otherwise.
-/

namespace WideColumn

/-- A session with one server of a cluster. -/
structure Cluster.Session where
  server : String
  isOpen : Bool
  deriving DecidableEq, Repr

/-- A keyspace in memory with the servers that offer it. -/
structure Cluster where
  store : Store
  /-- The servers that refuse connections and calls. -/
  down : List String
  /-- Failures waiting for the next calls, with their operations. -/
  faults : List (String × RpcError)
  /-- The operations called so far, latest first. -/
  calls : List String
  /-- What every login has to present. -/
  credentials : Option Credentials
  /-- All sessions ever opened, in order. -/
  sessions : List Cluster.Session

namespace Cluster

/-- The operation under which failures of connection attempts are queued. -/
def connectOperation : String := "connect"

/-- A cluster with empty tables and all servers up. -/
def ofKeyspace (registry : Registry) (keyspace : KeyspaceDef) : Cluster where
  store := .ofKeyspace registry keyspace
  down := []
  faults := []
  calls := []
  credentials := none
  sessions := []

/-! ## Staging failures -/

def setDown (c : Cluster) (server : String) : Cluster := { c with down := server :: c.down }

/-- Brings a server back. -/
def setUp (c : Cluster) (server : String) : Cluster :=
  { c with down := c.down.filter (· != server) }

/-- Makes every login present these credentials. -/
def requireCredentials (c : Cluster) (credentials : Credentials) : Cluster :=
  { c with credentials := some credentials }

/-- Makes the next calls of an operation fail, after those already waiting. -/
def failNext (c : Cluster) (operation : String) (times : Nat) (e : RpcError) : Cluster :=
  { c with faults := c.faults ++ List.replicate times (operation, e) }

/-! ## Counting -/

/-- The number of failures waiting for an operation. -/
def pendingFaults (c : Cluster) (operation : String) : Nat :=
  c.faults.countP fun (waiting, _) => waiting == operation

def callCount (c : Cluster) (operation : String) : Nat := c.calls.count operation

def opened (c : Cluster) : Nat := c.sessions.length

/-! ## Calls -/

def record (c : Cluster) (operation : String) : Cluster := { c with calls := operation :: c.calls }

/-- Takes the failure that waits longest for an operation. -/
def takeFault (c : Cluster) (operation : String) : Option RpcError × Cluster :=
  match c.faults.find? fun (waiting, _) => waiting == operation with
  | none => (none, c)
  | some (_, e) =>
    (some e, { c with faults := c.faults.eraseP fun (waiting, _) => waiting == operation })

/-- What a login is refused for. -/
def checkLogin (c : Cluster) (login : Login) : Except RpcError Unit := do
  if c.credentials.isSome && login.credentials != c.credentials then
    throw (.authenticationFailed "invalid username or password")
  if c.store.keyspace.name != login.keyspace then
    throw (.invalidRequest ("keyspace " ++ login.keyspace ++ " does not exist"))

/-- Opens a session with a server. -/
def connect (server : String) (login : Login) (c : Cluster) : Except RpcError SessionId × Cluster :=
  let c := c.record connectOperation
  if c.down.contains server then
    (.error (.transport ("connection refused by " ++ server)), c)
  else
    match c.takeFault connectOperation with
    | (some e, c) => (.error e, c)
    | (none, c) =>
      match c.checkLogin login with
      | .error e => (.error e, c)
      | .ok () => (.ok c.sessions.length, { c with sessions := c.sessions ++ [⟨server, true⟩] })

/-- Closes a session. -/
def close (id : SessionId) (c : Cluster) : Cluster :=
  { c with sessions := c.sessions.modify id fun session => { session with isOpen := false } }

/-- What happens to a call before it reaches the store. -/
def enter (id : SessionId) (operation : String) (c : Cluster) : Except RpcError Unit × Cluster :=
  let c := c.record operation
  match c.sessions[id]? with
  | none => (.error (.transport "connection closed"), c)
  | some session =>
    if !session.isOpen then (.error (.transport "connection closed"), c)
    else if c.down.contains session.server then
      (.error (.transport (session.server ++ " is down")), c)
    else
      match c.takeFault operation with
      | (some e, c) => (.error e, c)
      | (none, c) => (.ok (), c)

/-- A refusal of the store as the failure of a call. -/
def answer {α : Type} : Except Refusal α → Except RpcError α
  | .ok a => .ok a
  | .error refusal => .error (.invalidRequest refusal.message)

/-- Keeps the store after a write that was not refused. -/
def keep (c : Cluster) : Except Refusal Store → Except RpcError Unit × Cluster
  | .ok store => (.ok (), { c with store })
  | .error refusal => (.error (.invalidRequest refusal.message), c)

/-- What a call does to the store and answers. -/
def serve {α : Type} (r : Rpc α) (c : Cluster) : Except RpcError α × Cluster :=
  match r with
  | .getSlice key parent predicate _ => (answer (c.store.slice key parent predicate), c)
  | .getCount key parent predicate _ =>
    (answer ((countWord ·.length) <$> c.store.slice key parent predicate), c)
  | .multigetSlice keys parent predicate _ =>
    (answer (keys.eraseDups.mapM fun key => (key, ·) <$> c.store.slice key parent predicate), c)
  | .multigetCount keys parent predicate _ =>
    (answer (keys.eraseDups.mapM fun key =>
      (fun entries => (key, countWord entries.length)) <$> c.store.slice key parent predicate), c)
  | .getRangeSlices parent predicate range _ =>
    (answer (c.store.rangeSlices parent predicate range), c)
  | .getIndexedSlices parent clause predicate _ =>
    (answer (c.store.indexedSlices parent clause predicate), c)
  | .batchMutate mutations _ =>
    let (result, store) := c.store.batch mutations
    (answer result, { c with store })
  | .remove key path timestamp _ => c.keep (c.store.remove key path (some timestamp))
  | .removeCounter key path _ => c.keep (c.store.remove key path none)
  | .add key parent counter _ => c.keep (c.store.add key parent counter)
  | .truncate table => c.keep (c.store.truncate table)
  | .describeKeyspace name =>
    if c.store.keyspace.name = name then (.ok c.store.keyspace, c) else (.error .notFound, c)

/-- Makes a call in a session. -/
def perform {α : Type} (id : SessionId) (r : Rpc α) (c : Cluster) : Except RpcError α × Cluster :=
  match c.enter id r.operation with
  | (.error e, c) => (.error e, c)
  | (.ok (), c) => c.serve r

instance : Network Cluster where
  closing c := (false, c)
  connect := connect
  perform := perform
  close := close

end Cluster

end WideColumn
