import WideColumn.Handle
import WideColumn.Pool

/-!
# Reading through a handle

Reads of single rows and of several rows. Every argument is packed before the first remote call.
-/

namespace WideColumn.Handle

variable {ω : Type} [Network ω]

/-- Opens a handle of a table of the pool's keyspace. -/
def openTable (registry : Registry) (table : String) (options : HandleOptions) :
    Client ω Handle := do
  Client.ofExcept options.validate
  let keyspace ← Client.describeKeyspace
  match keyspace.table? table with
  | some definition => return ⟨.ofDef registry options definition, options⟩
  | none => throw .notFound

/-- The request for the columns of a row. -/
def sliceRequest (h : Handle) (key : Value) (q : SliceQuery) :
    Except ClientError (Rpc (List Entry)) := do
  let packed ← h.packKey key
  let parent ← h.parent q.superColumn
  return .getSlice packed parent (← h.predicate q) (h.readLevel q)

/-- Reads a row, if any column matches. -/
def get? (h : Handle) (key : Value) (q : SliceQuery) : Client ω (Option Row) := do
  let entries ← Client.call (← Client.ofExcept (h.sliceRequest key q))
  if entries.isEmpty then return none
  return some ⟨key, ← Client.ofExcept (h.decode entries)⟩

/-- Reads a row of which some column has to match. -/
def get (h : Handle) (key : Value) (q : SliceQuery) : Client ω Row := do
  match ← h.get? key q with
  | some row => return row
  | none => throw .notFound

/-- Reads a super column. -/
def getSuper (h : Handle) (key superColumn : Value) (q : SliceQuery) : Client ω Cell := do
  let row ← h.get key { q with superColumn := some superColumn }
  return .super superColumn row.cells

/-- The request for the number of columns of a row. -/
def countRequest (h : Handle) (key : Value) (q : SliceQuery) : Except ClientError (Rpc Int32) := do
  let packed ← h.packKey key
  let parent ← h.parent q.superColumn
  return .getCount packed parent (← h.predicate q) (h.readLevel q)

/-- Counts the columns of a row that match. -/
def getCount (h : Handle) (key : Value) (q : SliceQuery) : Client ω Nat := do
  let count ← Client.call (← Client.ofExcept (h.countRequest key q))
  Client.ofExcept (columnCount count)

/-! ## Several rows -/

/-- A list in pieces of a length; the last piece may be shorter. -/
def chunks {α : Type} (size : Nat) (xs : List α) : List (List α) :=
  if _h : xs = [] ∨ size = 0 then [] else xs.take size :: chunks size (xs.drop size)
termination_by xs.length
decreasing_by
  have : 0 < xs.length := by
    cases xs with
    | nil => simp at _h
    | cons _ _ => simp
  simp only [List.length_drop]
  omega

/-- Packs keys and cuts them into the pieces of one request each. -/
def packKeyChunks (h : Handle) (keys : List Value) :
    Except ClientError (List (List (Bytes × Value))) := do
  let packed ← keys.mapM h.packKey
  return chunks h.options.multigetSize (packed.zip keys)

/-- The rows that an answer holds, in the order of the keys. Each row answers for the first of its
keys; rows without entries are left out. -/
def decodeFound (h : Handle) :
    List (Bytes × Value) → List (Bytes × List Entry) → Except ClientError (List Row)
  | [], _ => .ok []
  | (packed, key) :: keys, found =>
    match found.lookup packed with
    | some (entry :: entries) => do
      let cells ← h.decode (entry :: entries)
      let rows ← h.decodeFound keys (found.filter fun (k, _) => k != packed)
      return ⟨key, cells⟩ :: rows
    | _ => h.decodeFound keys found

/-- Reads several rows, in the order of the keys and without those in which nothing matches. -/
def multiget (h : Handle) (keys : List Value) (q : SliceQuery) : Client ω (List Row) := do
  let pieces ← Client.ofExcept (h.packKeyChunks keys)
  let parent ← Client.ofExcept (h.parent q.superColumn)
  let predicate ← Client.ofExcept (h.predicate q)
  let rows ← pieces.mapM fun piece => do
    let found ← Client.call (.multigetSlice (piece.map (·.1)) parent predicate (h.readLevel q))
    Client.ofExcept (h.decodeFound piece found)
  return rows.flatten

/-- Counts the columns of several rows that match, in the order of the keys. -/
def multigetCount (h : Handle) (keys : List Value) (q : SliceQuery) :
    Client ω (List (Value × Nat)) := do
  let pieces ← Client.ofExcept (h.packKeyChunks keys)
  let parent ← Client.ofExcept (h.parent q.superColumn)
  let predicate ← Client.ofExcept (h.predicate q)
  let counts ← pieces.mapM fun piece => do
    let found ← Client.call (.multigetCount (piece.map (·.1)) parent predicate (h.readLevel q))
    Client.ofExcept (piece.mapM fun (packed, key) => do
      return (key, ← columnCount ((found.lookup packed).getD 0)))
  return counts.flatten

end WideColumn.Handle
