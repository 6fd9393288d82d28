import WideColumn.Handle
import WideColumn.Pool

/-!
# Writing through a handle

Writes to one row or several rows of a table. Every argument is packed before the remote call.
-/

namespace WideColumn.Handle

variable {ω : Type} [Network ω]

/-- Sends mutations. -/
def send (h : Handle) (mutations : MutationMap) (o : WriteOptions) : Client ω Unit :=
  Client.call (.batchMutate mutations (h.writeLevel o))

/-- The mutations of an insertion into one row. -/
def insertMap (h : Handle) (key : Value) (columns : NewColumns) (o : WriteOptions)
    (mutations : MutationMap) : Except ClientError MutationMap := do
  let packed ← h.packKey key
  return mutations.extend packed h.name (← h.insertMutations columns o)

/-- Writes columns to a row. -/
def insert (h : Handle) (key : Value) (columns : NewColumns) (o : WriteOptions) :
    Client ω Unit := do
  h.send (← Client.ofExcept (h.insertMap key columns o .empty)) o

/-- Writes columns to several rows with one request, or none if there are no rows. -/
def insertAll (h : Handle) (rows : List (Value × NewColumns)) (o : WriteOptions) :
    Client ω Unit := do
  let mutations ← Client.ofExcept
    (rows.foldlM (fun m (key, columns) => h.insertMap key columns o m) .empty)
  if !mutations.isEmpty then h.send mutations o

/-- Removes a row, some columns, or a super column or part of it. A single address is removed
directly, several by a batch. -/
def remove (h : Handle) (key : Value) (names : Option (List Value)) (superColumn : Option Value)
    (o : WriteOptions) : Client ω Unit := do
  Client.ofExcept (h.checkCounters false)
  let packed ← Client.ofExcept (h.packKey key)
  match ← Client.ofExcept (h.removalPath names superColumn) with
  | some path => Client.call (.remove packed path o.timestamp (h.writeLevel o))
  | none =>
    let deletion ← Client.ofExcept (h.deletion names superColumn o.timestamp)
    h.send (MutationMap.empty.push packed h.name deletion) o

def truncate (h : Handle) : Client ω Unit := Client.call (.truncate h.name)

/-! ## Counters -/

/-- Adds to a counter. An addition that is tried again may count twice. -/
def add (h : Handle) (key column : Value) (amount : Int64) (superColumn : Option Value) :
    Client ω Unit := do
  Client.ofExcept (h.checkCounters true)
  let packed ← Client.ofExcept (h.packKey key)
  let parent ← Client.ofExcept (h.parent superColumn)
  let name ← Client.ofExcept (h.packLeafName column)
  Client.call (.add packed parent ⟨name, amount⟩ h.options.writeLevel)

/-- Removes a counter. -/
def removeCounter (h : Handle) (key column : Value) (superColumn : Option Value) :
    Client ω Unit := do
  Client.ofExcept (h.checkCounters true)
  let packed ← Client.ofExcept (h.packKey key)
  let superColumn ← Client.ofExcept (h.packSuperColumn superColumn)
  let name ← Client.ofExcept (h.packLeafName column)
  Client.call (.removeCounter packed ⟨h.name, superColumn, some name⟩ h.options.writeLevel)

end WideColumn.Handle
