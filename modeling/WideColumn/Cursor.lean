import WideColumn.Column
import WideColumn.Error

/-!
# Paging cursors

A cursor turns pages of rows into one sequence of rows. The first page starts at the wanted key. A
page shorter than asked for is the last one; after any other the next page starts at the key of its
last row, and the row that repeats that key is dropped. With a limit on the rows, a page asks for at
most one more row than the limit still allows.

- `Cursor.step` says what a cursor does next without touching the source of its pages;
- `Cursor.next` goes on to the next row. It takes a budget of pages, for a source may answer rows
  without entries for ever; a cursor that used it up is `paused` and can go on.
-/

namespace WideColumn

/-- The progress of a scan. -/
structure Cursor where
  bufferSize : Nat
  /-- The number of rows wanted. -/
  limit : Option Nat
  /-- Whether rows without entries count. -/
  keepEmpty : Bool
  start : Bytes
  /-- The rows of the current page that are still to come. -/
  page : List RowSlice
  /-- The last key of the latest page. -/
  resume : Option Bytes
  /-- The length of the latest page, and the length it was asked for. -/
  lastLength : Nat
  lastRequest : Nat
  /-- The number of pages fetched. -/
  fetched : Nat
  /-- The number of rows handed out. -/
  emitted : Nat
  isDone : Bool
  deriving DecidableEq, Repr

/-- What going on to the next row leads to. -/
inductive Progress (α : Type) where
  | row (a : α)
  | failure (e : ClientError)
  /-- The scan is over. -/
  | finished
  /-- The budget of pages is used up. -/
  | paused

instance {α : Type} : Inhabited (Progress α) := ⟨.finished⟩

namespace Cursor

/-- The smallest page with which a scan gets ahead, for one of its rows may be a repetition. -/
def minBufferSize : Nat := 2

def defaultBufferSize : Nat := 1024

def defaultRowCount : Nat := 100

/-- A cursor that starts at a key; the empty key stands for the beginning. -/
def ofStart (start : Bytes) (bufferSize : Nat) : Except ClientError Cursor :=
  if bufferSize < minBufferSize then invalid (.smallPage bufferSize)
  else
    .ok { bufferSize, limit := none, keepEmpty := false, start, page := [], resume := none,
          lastLength := 0, lastRequest := 0, fetched := 0, emitted := 0, isDone := false }

def withLimit (c : Cursor) (limit : Option Nat) : Cursor := { c with limit }

/-- Decides whether rows without entries count. -/
def withEmptyRows (c : Cursor) (keepEmpty : Bool) : Cursor := { c with keepEmpty }

def atLimit (c : Cursor) : Bool := c.limit.any fun limit => limit ≤ c.emitted

/-- Whether a row is passed over. -/
def skips (c : Cursor) (row : RowSlice) : Bool := row.entries.isEmpty && !c.keepEmpty

/-- The number of rows to ask for. -/
def pageSize (c : Cursor) : Nat :=
  match c.limit with
  | some limit => max (min (limit - c.emitted + 1) c.bufferSize) minBufferSize
  | none => c.bufferSize

/-- Whether the latest page was the last one. -/
def atLastPage (c : Cursor) : Bool := 0 < c.fetched && c.lastLength < c.lastRequest

/-- What a cursor does next. -/
inductive Step where
  | finished (c : Cursor)
  | row (a : RowSlice) (c : Cursor)
  /-- Fetch a page of `count` rows from `start` on. -/
  | fetch (start : Bytes) (count : Nat) (c : Cursor)

/-- What a cursor does next. -/
def step (c : Cursor) : Step :=
  if c.isDone || c.atLimit then .finished { c with isDone := true }
  else
    match c.page.dropWhile c.skips with
    | row :: rest => .row row { c with page := rest, emitted := c.emitted + 1 }
    | [] =>
      if c.atLastPage then .finished { c with page := [], isDone := true }
      else .fetch (c.resume.getD c.start) c.pageSize { c with page := [] }

/-- A page without the row that repeats the last key of the page before. -/
def dropRepeated (resume : Option Bytes) (rows : List RowSlice) : List RowSlice :=
  match resume, rows with
  | some key, row :: rest => if row.key = key then rest else rows
  | _, _ => rows

/-- The cursor after a page arrived. A page without new rows ends the scan. -/
def receive (c : Cursor) (count : Nat) (rows : List RowSlice) : Cursor :=
  let fresh := dropRepeated c.resume rows
  let c := { c with fetched := c.fetched + 1, lastRequest := count, lastLength := rows.length }
  match fresh.getLast? with
  | some last => { c with page := fresh, resume := some last.key }
  | none => { c with isDone := true }

/-- A source of pages: the rows from a key on, at most as many as asked for. -/
abbrev Source (σ : Type) := Bytes → Nat → EStateM ClientError σ (List RowSlice)

/-- Goes on to the next row within a budget of pages. A failure of the source ends the scan. -/
def next {σ : Type} (source : Source σ) : Nat → Cursor → σ → Progress RowSlice × Cursor × σ
  | budget, c, s =>
    match c.step with
    | .finished c => (.finished, c, s)
    | .row row c => (.row row, c, s)
    | .fetch start count c =>
      match budget with
      | 0 => (.paused, c, s)
      | budget + 1 =>
        match source start count s with
        | .ok rows s => next source budget (c.receive count rows) s
        | .error e s => (.failure e, { c with isDone := true }, s)

end Cursor

end WideColumn
