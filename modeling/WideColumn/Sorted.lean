/-!
# Sorted association lists

Keys with their values in the order of a comparator. The comparator is an argument, not a class, for
the same byte strings are sorted differently in different tables.

- `Sorted.locate` finds the place of a key by halving;
- `Sorted.find?`, `Sorted.alter` and `Sorted.set` read and change the entry at that place;
- `Sorted.Increasing` says that a list is in strictly increasing order.
-/

namespace WideColumn

/-- Keys and values, meant to be kept in the order of a comparator. -/
abbrev Sorted (κ α : Type) := List (κ × α)

namespace Sorted

variable {κ α : Type}

/-- The entries stand in strictly increasing order. -/
def Increasing (order : κ → κ → Ordering) (entries : Sorted κ α) : Prop :=
  entries.Pairwise fun a b => order a.1 b.1 = .lt

/-! ## Search -/

/-- Halves the window of `size` entries from `base` on until one is left. A key not before the
middle entry keeps the upper part, so equal entries are found at the right end. -/
def narrow (order : κ → κ → Ordering) (key : κ) (entries : Sorted κ α) (base size : Nat) : Nat :=
  if _h : size ≤ 1 then base
  else
    let middle := base + size / 2
    match entries[middle]? with
    | some (k, _) =>
      if order k key = .gt then narrow order key entries base (size - size / 2)
      else narrow order key entries middle (size - size / 2)
    | none => base
termination_by size
decreasing_by all_goals omega

/-- The place of a key: where it stands (`true`), or where it would be inserted (`false`). -/
def locate (order : κ → κ → Ordering) (key : κ) (entries : Sorted κ α) : Bool × Nat :=
  let base := narrow order key entries 0 entries.length
  match entries[base]? with
  | none => (false, 0)
  | some (k, _) =>
    match order k key with
    | .eq => (true, base)
    | .lt => (false, base + 1)
    | .gt => (false, base)

/-- The index of the entry a key names. -/
def index? (order : κ → κ → Ordering) (key : κ) (entries : Sorted κ α) : Option Nat :=
  match locate order key entries with
  | (true, i) => some i
  | (false, _) => none

/-- The value under a key. -/
def find? (order : κ → κ → Ordering) (key : κ) (entries : Sorted κ α) : Option α :=
  match index? order key entries with
  | some i => (entries[i]?).map (·.2)
  | none => none

/-! ## Changes -/

/-- Changes the value under a key, which starts out as `fresh` if the key is new. The key of an
entry that is already there stays as it is. -/
def alter (order : κ → κ → Ordering) (key : κ) (fresh : α) (change : α → α)
    (entries : Sorted κ α) : Sorted κ α :=
  match locate order key entries with
  | (true, i) => entries.modify i fun (k, v) => (k, change v)
  | (false, i) => entries.insertIdx i (key, change fresh)

/-- Puts a value under a key in place of what was there. -/
def set (order : κ → κ → Ordering) (key : κ) (v : α) (entries : Sorted κ α) : Sorted κ α :=
  alter order key v (fun _ => v) entries

end Sorted

end WideColumn
