import WideColumn.Json.Decode
import WideColumn.Json.Encode
import WideColumn.Pool.Config

/-!
# Pool settings as JSON

Reads and writes the settings of a pool. Every missing field has its default; a duration is written
by its seconds and the nanoseconds they leave over.
-/

namespace WideColumn

open Json

/-! ## Durations and credentials -/

/-- Reads seconds and nanoseconds. A billion nanoseconds and more carry over into the seconds, which
have to fit in 64 bits. No other field is allowed. -/
def Duration.ofJson? (j : Json) : Option Duration := do
  guard (j.hasOnly ["secs", "nanos"])
  match ← fields? ["secs", "nanos"] j with
  | (_, [seconds, nanos]) =>
    let seconds ← needed? (asNat? UInt64.size) seconds
    let nanos ← needed? (asNat? UInt32.size) nanos
    let d := Duration.ofParts seconds nanos
    guard (d.seconds < UInt64.size)
    return d
  | _ => none

/-- Writes seconds and nanoseconds. -/
def Duration.toJson (d : Duration) : Json :=
  ofFields [("secs", ofNat d.seconds), ("nanos", ofNat d.subsecond)]

/-- Reads a user name and a password. -/
def Credentials.ofJson? (j : Json) : Option Credentials := do
  match ← fields? ["username", "password"] j with
  | (_, [username, password]) =>
    return ⟨← needed? asText? username, ← needed? asText? password⟩
  | _ => none

/-- Writes a user name and a password. -/
def Credentials.toJson (c : Credentials) : Json :=
  ofFields [("username", ofText c.username), ("password", ofText c.password)]

/-! ## Pools -/

/-- Reads pool settings. -/
def PoolConfig.ofJson? (j : Json) : Option PoolConfig := do
  let d := PoolConfig.default
  match ← fields? ["keyspace", "servers", "pool_size", "max_retries", "base_backoff",
      "max_backoff", "recycle", "send_timeout", "recv_timeout", "pool_timeout", "credentials",
      "framed_transport", "prefill"] j with
  | (_, [keyspace, servers, poolSize, maxRetries, baseBackoff, maxBackoff, recycle, sendTimeout,
      receiveTimeout, poolTimeout, credentials, framed, prefill]) =>
    return {
      keyspace := ← defaulted? asText? d.keyspace keyspace
      servers := ← defaulted? (asList? asText?) d.servers servers
      poolSize := ← defaulted? (asOption? (asNat? UInt64.size)) d.poolSize poolSize
      maxRetries := ← defaulted? (asNat? UInt32.size) d.maxRetries maxRetries
      baseBackoff := ← defaulted? Duration.ofJson? d.baseBackoff baseBackoff
      maxBackoff := ← defaulted? Duration.ofJson? d.maxBackoff maxBackoff
      recycle := ← defaulted? (asNat? UInt64.size) d.recycle recycle
      sendTimeout := ← defaulted? Duration.ofJson? d.sendTimeout sendTimeout
      receiveTimeout := ← defaulted? Duration.ofJson? d.receiveTimeout receiveTimeout
      poolTimeout := ← defaulted? Duration.ofJson? d.poolTimeout poolTimeout
      credentials := ← defaulted? (asOption? Credentials.ofJson?) d.credentials credentials
      framed := ← defaulted? asBool? d.framed framed
      prefill := ← defaulted? asBool? d.prefill prefill }
  | _ => none

/-- Writes pool settings. -/
def PoolConfig.toJson (c : PoolConfig) : Json :=
  ofFields [
    ("keyspace", ofText c.keyspace),
    ("servers", ofList ofText c.servers),
    ("pool_size", ofOption ofNat c.poolSize),
    ("max_retries", ofNat c.maxRetries),
    ("base_backoff", c.baseBackoff.toJson),
    ("max_backoff", c.maxBackoff.toJson),
    ("recycle", ofNat c.recycle),
    ("send_timeout", c.sendTimeout.toJson),
    ("recv_timeout", c.receiveTimeout.toJson),
    ("pool_timeout", c.poolTimeout.toJson),
    ("credentials", ofOption Credentials.toJson c.credentials),
    ("framed_transport", .bool c.framed),
    ("prefill", .bool c.prefill)]

end WideColumn
