import WideColumn.Cursor
import WideColumn.Handle
import WideColumn.Pool

/-!
# Scanning through a handle

Scans over a range of row keys and over the rows that satisfy conditions, page by page. A row that
does not decode is answered as a failure, and the scan goes on after it.
-/

namespace WideColumn

/-- Where a scan takes its pages from. -/
inductive ScanSource where
  | range (parent : ColumnParent) (predicate : SlicePredicate) (finish : Bytes)
      (level : Consistency)
  | indexed (parent : ColumnParent) (predicate : SlicePredicate)
      (expressions : List IndexExpression) (level : Consistency)

/-- Fetches a page. -/
def ScanSource.fetch {ω : Type} [Network ω] (source : ScanSource) : Cursor.Source (Pool × ω) :=
  fun start count =>
    match source with
    | .range parent predicate finish level =>
      Client.call (.getRangeSlices parent predicate ⟨start, finish, countWord count⟩ level)
    | .indexed parent predicate expressions level =>
      Client.call (.getIndexedSlices parent ⟨expressions, start, countWord count⟩ predicate level)

/-- A scan that is under way. -/
structure Scan where
  handle : Handle
  source : ScanSource
  cursor : Cursor

namespace Handle

/-- Begins a scan over a range of row keys. -/
def scanRange (h : Handle) (q : RangeQuery) : Except ClientError Scan := do
  let start ← h.packKeyEnd q.start
  let finish ← h.packKeyEnd q.finish
  let parent ← h.parent q.slice.superColumn
  let predicate ← h.predicate q.slice
  let cursor ← Cursor.ofStart start (q.bufferSize.getD h.options.bufferSize)
  return ⟨h, .range parent predicate finish (h.readLevel q.slice), cursor.withLimit q.limit⟩

/-- Packs a condition. The value is packed by the validator of the packed name. -/
def packCondition (h : Handle) (c : IndexCondition) : Except ClientError IndexExpression := do
  let column ← h.packLeafName c.column
  let value ← liftMarshal ((h.schema.validator column).pack c.value .value)
  return ⟨column, c.op, value⟩

/-- Begins a scan over the rows that satisfy conditions. -/
def scanIndexed (h : Handle) (q : IndexQuery) (slice : SliceQuery) : Except ClientError Scan := do
  let expressions ← q.conditions.mapM h.packCondition
  let start ← h.packKeyEnd q.start
  let parent ← h.parent none
  let predicate ← h.predicate slice
  let cursor ← Cursor.ofStart start (q.bufferSize.getD h.options.bufferSize)
  return ⟨h, .indexed parent predicate expressions (h.readLevel slice), cursor.withLimit q.limit⟩

end Handle

/-- Goes on to the next row within a budget of pages. -/
def Scan.next {ω : Type} [Network ω] (budget : Nat) (scan : Scan) (s : Pool × ω) :
    Progress Row × Scan × (Pool × ω) :=
  let (progress, cursor, s) := scan.cursor.next scan.source.fetch budget s
  let progress :=
    match progress with
    | .row row =>
      match scan.handle.decodeRow row with
      | .ok row => .row row
      | .error e => .failure e
    | .failure e => .failure e
    | .finished => .finished
    | .paused => .paused
  (progress, { scan with cursor }, s)

end WideColumn
