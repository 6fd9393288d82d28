import WideColumn.Error
import WideColumn.Network

/-!
# Pool settings

The settings of a connection pool, what makes them valid, and the pauses between attempts.
-/

namespace WideColumn

/-- A length of time in nanoseconds, at most `2 ^ 64` seconds. -/
structure Duration where
  nanos : Nat
  deriving DecidableEq, Repr, Inhabited

namespace Duration

def ofMillis (millis : Nat) : Duration := ⟨millis * 1000000⟩

def ofParts (seconds nanos : Nat) : Duration := ⟨seconds * 1000000000 + nanos⟩

def seconds (d : Duration) : Nat := d.nanos / 1000000000

/-- The nanoseconds that the whole seconds leave over. -/
def subsecond (d : Duration) : Nat := d.nanos % 1000000000

/-- The whole milliseconds, modulo `2 ^ 64`. -/
def millis (d : Duration) : Nat := d.nanos / 1000000 % UInt64.size

/-- A multiple of a duration, if its seconds fit in 64 bits. -/
def mul? (d : Duration) (factor : Nat) : Option Duration :=
  if d.nanos * factor / 1000000000 < UInt64.size then some ⟨d.nanos * factor⟩ else none

def min (a b : Duration) : Duration := ⟨Nat.min a.nanos b.nanos⟩

end Duration

/-- The settings of a pool. -/
structure PoolConfig where
  /-- The keyspace that every session selects. -/
  keyspace : String
  servers : List String
  /-- The number of sessions to keep; without one, as many as there are servers. -/
  poolSize : Option Nat
  /-- The number of attempts of one call. -/
  maxRetries : Nat
  /-- The pause after the first failed attempt. -/
  baseBackoff : Duration
  /-- The longest pause. -/
  maxBackoff : Duration
  /-- The number of uses after which a session is closed. -/
  recycle : Nat
  sendTimeout : Duration
  receiveTimeout : Duration
  /-- How long to wait for a session when all are in use. -/
  poolTimeout : Duration
  credentials : Option Credentials
  framed : Bool
  /-- Whether the pool opens all sessions when it is made. -/
  prefill : Bool
  deriving DecidableEq

namespace PoolConfig

def defaultPort : Nat := 9160

def defaultServer : String := "localhost:9160"

def defaultMaxRetries : Nat := 5

def defaultRecycle : Nat := 10000

/-- The timeout of sending and receiving, by default, in milliseconds. -/
def defaultTimeoutMillis : Nat := 5000

/-- The pause after the first failed attempt, by default, in milliseconds. -/
def defaultBaseBackoffMillis : Nat := 10

def defaultMaxBackoffMillis : Nat := 1000

/-- The wait for a session, by default, in milliseconds. -/
def defaultPoolTimeoutMillis : Nat := 30000

/-- The default settings, without a keyspace. -/
def default : PoolConfig where
  keyspace := ""
  servers := [defaultServer]
  poolSize := none
  maxRetries := defaultMaxRetries
  baseBackoff := .ofMillis defaultBaseBackoffMillis
  maxBackoff := .ofMillis defaultMaxBackoffMillis
  recycle := defaultRecycle
  sendTimeout := .ofMillis defaultTimeoutMillis
  receiveTimeout := .ofMillis defaultTimeoutMillis
  poolTimeout := .ofMillis defaultPoolTimeoutMillis
  credentials := none
  framed := true
  prefill := true

instance : Inhabited PoolConfig := ⟨default⟩

def size (c : PoolConfig) : Nat := c.poolSize.getD c.servers.length

/-- The first fault of the settings. -/
def validate (c : PoolConfig) : Except ClientError Unit :=
  if c.keyspace.isEmpty then invalid .emptyKeyspace
  else if c.servers.isEmpty then invalid .noServers
  else if c.size = 0 then invalid .noPool
  else if c.maxRetries = 0 then invalid .noRetries
  else if c.recycle = 0 then invalid .noRecycle
  else .ok ()

def login (c : PoolConfig) : Login := ⟨c.keyspace, c.credentials⟩

/-! ## Pauses -/

/-- The factor of a pause: a power of two while 32 bits hold it, and their largest number beyond. -/
def backoffFactor (attempt : Nat) : Nat := if attempt < 32 then 1 <<< attempt else UInt32.size - 1

/-- The pause after a failed attempt, counted from zero. A product that a duration cannot hold
counts as longer than the longest pause. -/
def backoff (c : PoolConfig) (attempt : Nat) : Duration :=
  ((c.baseBackoff.mul? (backoffFactor attempt)).getD c.maxBackoff).min c.maxBackoff

end PoolConfig

end WideColumn
