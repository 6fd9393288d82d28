import WideColumn.Pool.Config
import WideColumn.Text.Quoted

/-!
# Connection pools

A pool keeps up to a fixed number of sessions open, spread over its servers in rotation. A session
is free, or held by whoever acquired it, or closed for good.

- `Pool.acquire` hands a free session out or opens one; `Pool.release` takes it back and closes it
  when it has served often enough; `Pool.discard` closes it and opens another in its place;
- `Pool.call` makes a remote call, and again on another session as long as it fails transiently;
- `Pool.close` closes the pool and its free sessions; held ones are closed when they come back.

All steps answer the pool and the network after them.
-/

namespace WideColumn

/-- An open session, its server, and how often it came back to its pool. -/
structure Link where
  session : SessionId
  server : String
  uses : Nat
  deriving DecidableEq, Repr

/-- What a pool counts. -/
structure PoolCounters where
  created : Nat
  failed : Nat
  recycled : Nat
  closed : Nat
  acquisitions : Nat
  releases : Nat
  timeouts : Nat
  deriving DecidableEq, Repr, Inhabited

/-- A pool of sessions. -/
structure Pool where
  config : PoolConfig
  /-- The place in the rotation over the servers; it starts again after `2 ^ 64` steps. -/
  rotation : UInt64
  /-- The free sessions, the one that waits longest first. -/
  free : List Link
  /-- The number of sessions that are free or held. -/
  live : Nat
  isClosed : Bool
  counters : PoolCounters

namespace Pool

/-- A pool without sessions. -/
def ofConfig (config : PoolConfig) : Pool where
  config
  rotation := 0
  free := []
  live := 0
  isClosed := false
  counters := ⟨0, 0, 0, 0, 0, 0, 0⟩

def capacity (p : Pool) : Nat := p.config.size

/-- The number of sessions that are held. -/
def held (p : Pool) : Nat := p.live - p.free.length

/-- Changes the counters. -/
def count (p : Pool) (change : PoolCounters → PoolCounters) : Pool :=
  { p with counters := change p.counters }

/-- The next server in the rotation, and the pool with the rotation advanced. -/
def nextServer (p : Pool) : String × Pool :=
  ((p.config.servers[p.rotation.toNat % p.config.servers.length]?).getD "",
    { p with rotation := p.rotation + 1 })

section Steps

variable {ω : Type} [Network ω]

/-! ## Closing -/

/-- Closes sessions in order. -/
def closeLinks (links : List Link) (w : ω) : ω :=
  links.foldl (fun w link => Network.close link.session w) w

/-- Closes the pool and its free sessions. -/
def close (p : Pool) (w : ω) : Pool × ω :=
  let closed : Pool := { p with
    isClosed := true
    free := []
    live := p.live - p.free.length }
  (closed.count fun c => { c with closed := c.closed + p.free.length }, closeLinks p.free w)

/-! ## Opening -/

/-- Opens a session with the next server of the rotation, or with one after it, as long as attempts
are left and the servers fail transiently. -/
def openWithin (total : Nat) : Nat → Pool → ω → Except ClientError Link × Pool × ω
  | 0, p, w => (.error (.noServerAvailable total), p, w)
  | attempts + 1, p, w =>
    let (server, p) := p.nextServer
    let (closing, w) := Network.closing w
    let (p, w) := if closing then p.close w else (p, w)
    match Network.connect server p.config.login w with
    | (.ok session, w) =>
      (.ok ⟨session, server, 0⟩, p.count fun c => { c with created := c.created + 1 }, w)
    | (.error e, w) =>
      if e.isTransient then openWithin total attempts p w else (.error (.ofRpc e), p, w)

/-- Opens a session, in twice as many attempts as there are servers at most. -/
def openLink (p : Pool) (w : ω) : Except ClientError Link × Pool × ω :=
  openWithin (p.config.servers.length * 2) (p.config.servers.length * 2) p w

/-- Takes a slot and opens a session in it; the slot is given back if that fails. -/
def openSlot (p : Pool) (w : ω) : Except ClientError Link × Pool × ω :=
  match openLink { p with live := p.live + 1 } w with
  | (.ok link, p, w) => (.ok link, p, w)
  | (.error e, p, w) => (.error e, { p with live := p.live - 1 }, w)

/-- Opens free sessions while slots are missing. -/
def fillWithin : Nat → Pool → ω → Except ClientError Unit × Pool × ω
  | 0, p, w => (if p.isClosed then .error .poolClosed else .ok (), p, w)
  | missing + 1, p, w =>
    if p.isClosed then (.error .poolClosed, p, w)
    else
      match openSlot p w with
      | (.ok link, p, w) => fillWithin missing { p with free := p.free ++ [link] } w
      | (.error e, p, w) => (.error e, p, w)

/-- Opens sessions until the pool is full. -/
def fill (p : Pool) (w : ω) : Except ClientError Unit × Pool × ω :=
  fillWithin (p.capacity - p.live) p w

/-- Makes a pool, and fills it if its settings say so. -/
def connect (config : PoolConfig) (w : ω) : Except ClientError Pool × ω :=
  match config.validate with
  | .error e => (.error e, w)
  | .ok () =>
    if config.prefill then
      match fill (ofConfig config) w with
      | (.ok (), p, w) => (.ok p, w)
      | (.error e, _, w) => (.error e, w)
    else (.ok (ofConfig config), w)

/-! ## Acquiring and releasing -/

/-- Counts a session that is handed out. -/
def handOut (p : Pool) : Pool := p.count fun c => { c with acquisitions := c.acquisitions + 1 }

/-- Hands out the session that is free longest, or a new one while slots are left. With all slots
in use nobody can give a session back, so the wait runs out. -/
def acquire (p : Pool) (w : ω) : Except ClientError Link × Pool × ω :=
  if p.isClosed then (.error .poolClosed, p, w)
  else
    match p.free with
    | link :: rest => (.ok link, { p with free := rest }.handOut, w)
    | [] =>
      if p.live < p.capacity then
        match openSlot p w with
        | (.ok link, p, w) => (.ok link, p.handOut, w)
        | (.error e, p, w) => (.error e, p, w)
      else
        (.error (.poolTimeout p.config.poolTimeout.millis),
          p.count fun c => { c with timeouts := c.timeouts + 1 }, w)

/-- Takes a session back. It is closed if the pool is closed or if it has served often enough. -/
def release (link : Link) (p : Pool) (w : ω) : Pool × ω :=
  let link := { link with uses := link.uses + 1 }
  let p := p.count fun c => { c with releases := c.releases + 1 }
  if p.isClosed then
    ({ p with live := p.live - 1 }.count fun c => { c with closed := c.closed + 1 },
      Network.close link.session w)
  else if p.config.recycle ≤ link.uses then
    ({ p with live := p.live - 1 }.count fun c =>
        { c with recycled := c.recycled + 1, closed := c.closed + 1 },
      Network.close link.session w)
  else ({ p with free := p.free ++ [link] }, w)

/-- Closes a session that failed and opens another in its slot. -/
def discard (link : Link) (p : Pool) (w : ω) : Pool × ω :=
  let p := p.count fun c =>
    { c with failed := c.failed + 1, releases := c.releases + 1, closed := c.closed + 1 }
  let w := Network.close link.session w
  if p.isClosed then ({ p with live := p.live - 1 }, w)
  else
    match openLink p w with
    | (.ok fresh, p, w) =>
      if p.isClosed then
        ({ p with live := p.live - 1 }.count fun c => { c with closed := c.closed + 1 },
          Network.close fresh.session w)
      else ({ p with free := p.free ++ [fresh] }, w)
    | (.error _, p, w) => ({ p with live := p.live - 1 }, w)

/-! ## Calling -/

/-- Makes a call within a number of attempts; `last` is the failure of the attempt before. -/
def callWithin {α : Type} (operation : String) (r : Rpc α) (total : Nat) :
    Nat → Option RpcError → Pool → ω → Except ClientError α × Pool × ω
  | 0, last, p, w => (.error (.retriesExhausted operation total last), p, w)
  | attempts + 1, _, p, w =>
    match p.acquire w with
    | (.error e, p, w) => (.error e, p, w)
    | (.ok link, p, w) =>
      match Network.perform link.session r w with
      | (.ok a, w) =>
        let (p, w) := release link p w
        (.ok a, p, w)
      | (.error e, w) =>
        if e.isTransient then
          let (p, w) := discard link p w
          callWithin operation r total attempts (some e) p w
        else
          let (p, w) := release link p w
          (.error (.ofRpc e), p, w)

/-- Makes a call on some session, and again on another as long as it fails transiently and the
settings allow another attempt. -/
def call {α : Type} (operation : String) (r : Rpc α) (p : Pool) (w : ω) :
    Except ClientError α × Pool × ω :=
  callWithin operation r p.config.maxRetries p.config.maxRetries none p w

end Steps

end Pool

/-- The printed form of a pool. -/
def Pool.render (p : Pool) : String :=
  "ConnectionPool \x7b keyspace: " ++ Text.quote p.config.keyspace
    ++ s!", pool_size: {p.capacity}, current_size: {p.live}, available: {p.free.length}, closed: "
    ++ (if p.isClosed then "true" else "false") ++ " \x7d"

/-! ## Clients -/

/-- Steps of a client that may fail and change a pool and the network behind it. -/
abbrev Client (ω : Type) := EStateM ClientError (Pool × ω)

namespace Client

variable {ω : Type} {α : Type}

/-- A step that only computes. -/
def ofExcept : Except ClientError α → Client ω α
  | .ok a => pure a
  | .error e => throw e

/-- Makes a remote call under its own name. -/
def call [Network ω] (r : Rpc α) : Client ω α := fun (p, w) =>
  match p.call r.operation r w with
  | (.ok a, p, w) => .ok a (p, w)
  | (.error e, p, w) => .error e (p, w)

/-- The definition of the keyspace that the pool is bound to. -/
def describeKeyspace [Network ω] : Client ω KeyspaceDef := fun s =>
  call (.describeKeyspace s.1.config.keyspace) s

end Client

end WideColumn
