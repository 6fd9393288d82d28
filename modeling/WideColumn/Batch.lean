import WideColumn.Handle.Write

/-!
# Batches

A batch collects writes to any tables and sends them as one request, when it is told to or when
enough of them have come together. It is empty after it was sent, whether or not that succeeded.

- `Batch.queueInsert`, `Batch.queueRemove` and `Batch.queueAdd` collect a write or refuse it;
- `Batch.send` sends; `Batch.sendIfFull` sends when the batch has reached its size.
-/

namespace WideColumn

/-- Writes that wait to be sent. -/
structure Batch where
  pending : MutationMap
  level : Consistency
  /-- The number of mutations that makes the batch send itself. -/
  limit : Option Nat

namespace Batch

def empty (level : Consistency) (limit : Option Nat) : Batch := ⟨.empty, level, limit⟩

def size (b : Batch) : Nat := b.pending.size

def isEmpty (b : Batch) : Bool := b.pending.isEmpty

/-! ## Collecting -/

/-- Collects columns for a row. -/
def queueInsert (b : Batch) (h : Handle) (key : Value) (columns : NewColumns) (o : WriteOptions) :
    Except ClientError Batch := do
  return { b with pending := ← h.insertMap key columns o b.pending }

/-- Collects a removal. -/
def queueRemove (b : Batch) (h : Handle) (key : Value) (names : Option (List Value))
    (superColumn : Option Value) (timestamp : Int64) : Except ClientError Batch := do
  let packed ← h.packKey key
  let deletion ← h.deletion names superColumn timestamp
  return { b with pending := b.pending.push packed h.name deletion }

/-- Collects an addition to a counter. -/
def queueAdd (b : Batch) (h : Handle) (key column : Value) (amount : Int64)
    (superColumn : Option Value) : Except ClientError Batch := do
  let packed ← h.packKey key
  let mutation ← h.counterMutation column amount superColumn
  return { b with pending := b.pending.push packed h.name mutation }

/-! ## Sending -/

def isFull (b : Batch) : Bool := b.limit.any fun limit => limit ≤ b.size

variable {ω : Type} [Network ω]

/-- Sends the batch, unless it is empty, and answers the batch after that. -/
def send (b : Batch) (s : Pool × ω) : Except ClientError Unit × Batch × (Pool × ω) :=
  if b.isEmpty then (.ok (), b, s)
  else
    let (pending, rest) := b.pending.take
    match Client.call (.batchMutate pending b.level) s with
    | .ok () s => (.ok (), { b with pending := rest }, s)
    | .error e s => (.error e, { b with pending := rest }, s)

/-- Sends the batch if it has reached its size. -/
def sendIfFull (b : Batch) (s : Pool × ω) : Except ClientError Unit × Batch × (Pool × ω) :=
  if b.isFull then b.send s else (.ok (), b, s)

/-- Goes on with a write that was collected; a refused one leaves the batch as it was. -/
def collect (b : Batch) (queued : Except ClientError Batch) (s : Pool × ω) :
    Except ClientError Unit × Batch × (Pool × ω) :=
  match queued with
  | .ok b => b.sendIfFull s
  | .error e => (.error e, b, s)

/-- Adds columns of a row to the batch. -/
def insert (b : Batch) (h : Handle) (key : Value) (columns : NewColumns) (o : WriteOptions) :
    Pool × ω → Except ClientError Unit × Batch × (Pool × ω) :=
  b.collect (b.queueInsert h key columns o)

/-- Adds a removal to the batch. -/
def remove (b : Batch) (h : Handle) (key : Value) (names : Option (List Value))
    (superColumn : Option Value) (timestamp : Int64) :
    Pool × ω → Except ClientError Unit × Batch × (Pool × ω) :=
  b.collect (b.queueRemove h key names superColumn timestamp)

/-- Adds an addition to a counter to the batch. -/
def add (b : Batch) (h : Handle) (key column : Value) (amount : Int64)
    (superColumn : Option Value) : Pool × ω → Except ClientError Unit × Batch × (Pool × ω) :=
  b.collect (b.queueAdd h key column amount superColumn)

end Batch

end WideColumn
