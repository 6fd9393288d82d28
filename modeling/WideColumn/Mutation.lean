import WideColumn.Column
import WideColumn.Slice
import WideColumn.Sorted

/-!
# Mutations

The changes of a batch. `MutationMap` groups them by row key and then by table, both in increasing
order, and keeps the order in which the changes of one row and table were added.
-/

namespace WideColumn

/-- The removal of a row, of a super column or of some columns. Without a timestamp it removes
whatever it addresses. -/
structure Deletion where
  timestamp : Option Int64
  superColumn : Option Bytes
  predicate : Option SlicePredicate
  deriving DecidableEq, Repr

/-- One change of a row. -/
inductive Mutation where
  | insert (entry : Entry)
  | delete (deletion : Deletion)
  deriving DecidableEq, Repr

/-- Changes by row key and then by table. -/
structure MutationMap where
  rows : Sorted Bytes (Sorted String (List Mutation))
  deriving DecidableEq, Repr

namespace MutationMap

def empty : MutationMap := ⟨[]⟩

instance : Inhabited MutationMap := ⟨empty⟩

/-- Adds changes of one row of a table, in order. The row counts as touched even if the list is
empty. -/
def extend (m : MutationMap) (key : Bytes) (table : String) (mutations : List Mutation) :
    MutationMap :=
  ⟨m.rows.alter compare key [] fun tables =>
    tables.alter compare table [] fun earlier => earlier ++ mutations⟩

/-- Adds one change. -/
def push (m : MutationMap) (key : Bytes) (table : String) (mutation : Mutation) : MutationMap :=
  m.extend key table [mutation]

/-- The changes of each row and table, in increasing order of key and then of table. -/
def toList (m : MutationMap) : List (Bytes × String × List Mutation) :=
  m.rows.flatMap fun (key, tables) => tables.map fun (table, mutations) => (key, table, mutations)

def size (m : MutationMap) : Nat := (m.toList.flatMap fun (_, _, mutations) => mutations).length

def isEmpty (m : MutationMap) : Bool := m.rows.isEmpty

def rowCount (m : MutationMap) : Nat := m.rows.length

/-- The content of the map, and the map that is left when it is taken out. -/
def take (m : MutationMap) : MutationMap × MutationMap := (m, empty)

end MutationMap

end WideColumn
