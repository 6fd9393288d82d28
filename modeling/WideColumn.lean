import WideColumn.Batch
import WideColumn.Bytes
import WideColumn.Bytes.Word
import WideColumn.Cluster
import WideColumn.Column
import WideColumn.Consistency
import WideColumn.Cursor
import WideColumn.Cursor.Source
import WideColumn.DataType.Basic
import WideColumn.DataType.Order
import WideColumn.DataType.Pack
import WideColumn.DataType.Registry
import WideColumn.DataType.Unpack
import WideColumn.Error
import WideColumn.Handle
import WideColumn.Handle.Options
import WideColumn.Handle.Read
import WideColumn.Handle.Row
import WideColumn.Handle.Scan
import WideColumn.Handle.Schema
import WideColumn.Handle.Write
import WideColumn.Index
import WideColumn.Json
import WideColumn.Json.Decode
import WideColumn.Json.Encode
import WideColumn.Json.Token
import WideColumn.Mutation
import WideColumn.Network
import WideColumn.Pool
import WideColumn.Pool.Config
import WideColumn.Query
import WideColumn.Rpc
import WideColumn.Schema
import WideColumn.Settings.Handle
import WideColumn.Settings.Pool
import WideColumn.Settings.Schema
import WideColumn.Slice
import WideColumn.Sorted
import WideColumn.Store
import WideColumn.Store.Refusal
import WideColumn.Store.Row
import WideColumn.Store.Table
import WideColumn.Text.Blank
import WideColumn.Text.GraphemeBase
import WideColumn.Text.Hex
import WideColumn.Text.Quoted
import WideColumn.Text.Utf8
import WideColumn.Uuid
import WideColumn.Uuid.Time
import WideColumn.Value
import WideColumn.Proofs.Checked
import WideColumn.Proofs.Text.Utf8
import WideColumn.Proofs.Text.Quoted
import WideColumn.Proofs.Json
import WideColumn.Proofs.Json.Scan
import WideColumn.Proofs.Settings
import WideColumn.Proofs.DataType.Coerce
import WideColumn.Proofs.DataType.RoundTrip
import WideColumn.Proofs.Cursor.Pagination
import WideColumn.Proofs.OrderedOn
import WideColumn.Proofs.Sorted.Search
import WideColumn.Proofs.DataType.Frames
import WideColumn.Proofs.Bytes
import WideColumn.Proofs.DataType.LogicalOrder
import WideColumn.Proofs.DataType.BoundOrder
import WideColumn.Proofs.Query.Selection
import WideColumn.Proofs.Store.Run
import WideColumn.Proofs.Store.Write
import WideColumn.Proofs.Store.Representation
import WideColumn.Proofs.Pool.Outcome
import WideColumn.Proofs.Pool.Run
import WideColumn.Proofs.Pool.Accounting
import WideColumn.Proofs.Pool.Observed
import WideColumn.Proofs.Pool.Ownership
import WideColumn.Proofs.Store.Refused
import WideColumn.Proofs.DataType.OrderLaws
import WideColumn.Proofs.Cursor.Pages
import WideColumn.Proofs.Cursor.Changing
import WideColumn.Proofs.Pool.Client
import WideColumn.Proofs.Pool.Serving
import WideColumn.Proofs.Handle.Scan
import WideColumn.Proofs.Sorted.Lookup
import WideColumn.Proofs.Store.Rows
import WideColumn.Proofs.Store.Batch
import WideColumn.Proofs.Store.Cells
import WideColumn.Proofs.Handle.Schema
import WideColumn.Proofs.Handle.Mutations
import WideColumn.Proofs.Handle.Insert
import WideColumn.Proofs.Store.Supers
import WideColumn.Proofs.Handle.Removal
import WideColumn.Proofs.Batch
import WideColumn.Proofs.Batch.Removal
import WideColumn.Proofs.Store.DeletionByName
import WideColumn.Proofs.Batch.RemovalRoutes
import WideColumn.Proofs.DataType.Precedence
import WideColumn.Proofs.Cluster
import WideColumn.Proofs.Pool.Attempts
import WideColumn.Proofs.Pool.Retry
import WideColumn.Proofs.Handle.Multiget
import WideColumn.Proofs.Handle.SingleWrite
import WideColumn.Proofs.Pool.Turns
import WideColumn.Proofs.Pool.Rotation
import WideColumn.Proofs.Pool.Failover
import WideColumn.Proofs.Store.Search
import WideColumn.Proofs.Handle.IndexScan
import WideColumn.Proofs.Query.Selects
import WideColumn.Proofs.Store.Convergence
import WideColumn.Proofs.Store.Deletion
import WideColumn.Proofs.Store.Trace
import WideColumn.Proofs.Store.Validity
import WideColumn.Proofs.Handle.Validity
import WideColumn.Proofs.Store.Counters
import WideColumn.Proofs.Store.Counting
import WideColumn.Proofs.DataType.Exactness
import WideColumn.Proofs.DataType.Alike
import WideColumn.Proofs.Store.Holdings
import WideColumn.Proofs.Store.Leaves
import WideColumn.Proofs.Store.Listing
import WideColumn.Proofs.Store.Names
import WideColumn.Proofs.Handle.CounterRemoval
import WideColumn.Proofs.Handle.LogicalNames
import WideColumn.Proofs.Batch.Clients
import WideColumn.Proofs.Batch.SuperColumns
import WideColumn.Proofs.Uuid.Moments
import WideColumn.Proofs.Query.TimeSlices
import WideColumn.Proofs.Handle.Counts
import WideColumn.Proofs.Handle.SuperReads
import WideColumn.Proofs.Pool.Backoff
import WideColumn.Proofs.Cursor.History
import WideColumn.Proofs.Mutation
import WideColumn.Proofs.Mutation.Content
import WideColumn.Proofs.Batch.Conservation
import WideColumn.Proofs.DataType.ClassNames
