import WideColumn.Cursor

/-!
# Sources of pages

- `Source.ofRows` pages through a fixed list of rows;
- `Source.ofPages` hands out prepared pages and failures, one for each request;
- `Source.recorded` keeps the requests that were made to a source.
-/

namespace WideColumn.Cursor.Source

/-- The rows from a key on, at most as many as asked for. -/
def page (rows : List RowSlice) (start : Bytes) (count : Nat) : List RowSlice :=
  (rows.filter fun row => compare row.key start != .lt).take count

/-- A fixed list of rows, ordered by their keys. -/
def ofRows {σ : Type} (rows : List RowSlice) : Source σ :=
  fun start count s => .ok (page rows start count) s

/-- Prepared answers, whatever is asked for; when they have run out, pages without rows. -/
def ofPages : Source (List (Except ClientError (List RowSlice)))
  | _, _, [] => .ok [] []
  | _, _, .ok rows :: answers => .ok rows answers
  | _, _, .error e :: answers => .error e answers

/-- A source beside the requests made to it, latest first. -/
def recorded {σ : Type} (source : Source σ) : Source (List (Bytes × Nat) × σ) :=
  fun start count (requests, s) =>
    match source start count s with
    | .ok rows s => .ok rows ((start, count) :: requests, s)
    | .error e s => .error e ((start, count) :: requests, s)

end WideColumn.Cursor.Source
