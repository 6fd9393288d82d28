import WideColumn.Column
import WideColumn.Slice
import WideColumn.Sorted

/-!
# Stored rows

A stored row is a sorted list of leaves, or a sorted list of super columns that are sorted lists of
leaves themselves. A leaf is a cell with its timestamp or a counter.

- `Leaves.put` keeps the write with the larger timestamp, the later of two equal ones;
- `Leaves.increment` adds with the wrap-around of 64-bit arithmetic;
- `Leaves.delete` removes what a predicate selects and a deletion's timestamp shadows;
- `select` answers what a predicate selects, in the order it asks for.
-/

namespace WideColumn.Store

/-- What is stored under a column name. -/
inductive Leaf where
  | cell (value : Bytes) (timestamp : Int64) (ttl : Option Int32)
  | counter (value : Int64)
  deriving DecidableEq, Repr

/-- Column names with their leaves. -/
abbrev Leaves := Sorted Bytes Leaf

/-- The content of a row. -/
inductive RowData where
  | flat (leaves : Leaves)
  | grouped (supers : Sorted Bytes Leaves)
  deriving DecidableEq, Repr

/-- Whether a row holds nothing. -/
def RowData.isEmpty : RowData → Bool
  | .flat leaves => leaves.isEmpty
  | .grouped supers => supers.isEmpty

/-! ## Selection -/

section Select

variable {α : Type} (order : Bytes → Bytes → Ordering)

/-- Whether a name lies between two bounds; an empty bound is open. -/
def within (low high name : Bytes) : Bool :=
  (low.isEmpty || order name low != .lt) && (high.isEmpty || order name high != .gt)

/-- The entries that a predicate selects. Names answer in the list's own order and once each,
whatever their order in the predicate; a reversed range answers backwards. -/
def select (predicate : SlicePredicate) (entries : Sorted Bytes α) : Sorted Bytes α :=
  match predicate.names, predicate.range with
  | some names, _ =>
    let places := names.filterMap fun name => entries.index? order name
    (entries.zipIdx.filter fun (_, i) => places.contains i).map (·.1)
  | none, none => entries
  | none, some range =>
    if range.reversed then
      ((entries.reverse.filter fun (name, _) => within order range.finish range.start name).take
        (limitOf range.count))
    else
      ((entries.filter fun (name, _) => within order range.start range.finish name).take
        (limitOf range.count))

/-- The names that an optional predicate selects; without one, all. -/
def selectedNames (predicate : Option SlicePredicate) (entries : Sorted Bytes α) : List Bytes :=
  match predicate with
  | some p => (select order p entries).map (·.1)
  | none => entries.map (·.1)

end Select

/-! ## Leaves -/

/-- Whether a deletion shadows a leaf: always, unless both carry a timestamp and the leaf's is
larger. -/
def Leaf.shadowedBy (deletedAt : Option Int64) : Leaf → Bool
  | .cell _ timestamp _ =>
    match deletedAt with
    | some deletedAt => timestamp ≤ deletedAt
    | none => true
  | .counter _ => true

def Leaf.ofColumn (c : Column) : Leaf := .cell c.value c.timestamp c.ttl

/-- A stored leaf after a write: a cell with a larger timestamp stays. -/
def Leaf.overwrite (c : Column) : Leaf → Leaf
  | .cell value timestamp ttl =>
    if timestamp > c.timestamp then .cell value timestamp ttl else .ofColumn c
  | .counter _ => .ofColumn c

/-- A stored leaf after an increment. -/
def Leaf.bump (amount : Int64) : Leaf → Leaf
  | .counter value => .counter (value + amount)
  | .cell .. => .counter amount

/-- The entry that answers for a leaf. -/
def Leaf.toEntry (name : Bytes) : Leaf → Entry
  | .cell value timestamp ttl => .column { name, value, timestamp, ttl }
  | .counter value => .counter { name, value }

namespace Leaves

variable (order : Bytes → Bytes → Ordering)

/-- Writes a column. -/
def put (c : Column) (leaves : Leaves) : Leaves :=
  leaves.alter order c.name (.ofColumn c) (Leaf.overwrite c)

/-- Adds to a counter, which starts at zero. -/
def increment (c : Counter) (leaves : Leaves) : Leaves :=
  leaves.alter order c.name (.counter 0) (Leaf.bump c.value)

/-- Removes the leaves that are selected and shadowed. -/
def delete (predicate : Option SlicePredicate) (deletedAt : Option Int64) (leaves : Leaves) :
    Leaves :=
  let doomed := selectedNames order predicate leaves
  leaves.filter fun (name, leaf) => !(doomed.contains name && leaf.shadowedBy deletedAt)

/-- The cells among the leaves, as columns. -/
def columns (leaves : Leaves) : List Column :=
  leaves.filterMap fun (name, leaf) =>
    match leaf with
    | .cell value timestamp ttl => some { name, value, timestamp, ttl }
    | .counter _ => none

/-- The counters among the leaves. -/
def counters (leaves : Leaves) : List Counter :=
  leaves.filterMap fun (name, leaf) =>
    match leaf with
    | .counter value => some { name, value }
    | .cell .. => none

def toEntries (leaves : Leaves) : List Entry := leaves.map fun (name, leaf) => leaf.toEntry name

end Leaves

end WideColumn.Store
