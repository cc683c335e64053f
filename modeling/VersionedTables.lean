import VersionedTables.Cursor
import VersionedTables.Engine.Deployment
import VersionedTables.Main
import VersionedTables.SortedMap.Lemmas
import VersionedTables.Proofs.Json.Document
import VersionedTables.Proofs.Json.Lawful
import VersionedTables.Proofs.Json.Records
import VersionedTables.Proofs.Json.Persisted
import VersionedTables.Proofs.Allocation
import VersionedTables.Proofs.Allocation.Course
import VersionedTables.Proofs.Allocation.Views
import VersionedTables.Proofs.Log.Check
import VersionedTables.Proofs.Log.Commit
import VersionedTables.Proofs.Log.Stamp
import VersionedTables.Proofs.Log.Ledger
import VersionedTables.Proofs.Log.Allocated
import VersionedTables.Proofs.Log.Acceptance
import VersionedTables.Proofs.Backup.Restore
import VersionedTables.Proofs.Engine.Reachable
import VersionedTables.Proofs.Engine.Freshness
import VersionedTables.Proofs.Backup.Export
import VersionedTables.Proofs.Backup.RoundTrip
import VersionedTables.Proofs.Snapshot.Rows
import VersionedTables.Proofs.Snapshot.LastWriter
import VersionedTables.Proofs.Engine.Replay
import VersionedTables.Proofs.Text.Spelling
import VersionedTables.Proofs.Column.Width
import VersionedTables.Proofs.Column.Cells
import VersionedTables.Proofs.Column.Format
import VersionedTables.Proofs.CommandLine.Arguments
import VersionedTables.Proofs.CommandLine.Replay
import VersionedTables.Proofs.CommandLine.CheckSchema
import VersionedTables.Proofs.Column.Content
import VersionedTables.Proofs.Schema.Columns
import VersionedTables.Proofs.Schema.Legal
import VersionedTables.Proofs.Schema.Change
import VersionedTables.Proofs.Engine.Schemas
import VersionedTables.Proofs.Engine.Acceptance
import VersionedTables.Proofs.Engine.Writable
import VersionedTables.Proofs.Snapshot.History
import VersionedTables.Proofs.Engine.Course
import VersionedTables.Proofs.Engine.Following
import VersionedTables.Proofs.Engine.ReadBack
import VersionedTables.Proofs.Log.Alike
import VersionedTables.Proofs.Engine.Refusals
import VersionedTables.Proofs.Engine.Revisions
import VersionedTables.Proofs.Engine.RowBytes
import VersionedTables.Proofs.Engine.Appended
import VersionedTables.Proofs.Engine.Restored
import VersionedTables.Proofs.Engine.Submission
import VersionedTables.Proofs.Engine.WellFormed
import VersionedTables.Proofs.Engine.KnownRows
import VersionedTables.Proofs.Locality
import VersionedTables.Proofs.Log.Local
import VersionedTables.Proofs.Schema.Stamps
import VersionedTables.Proofs.Engine.Isolation
import VersionedTables.Proofs.Engine.Renaming
import VersionedTables.Proofs.Engine.Guests
import VersionedTables.Proofs.Schema.Capacity
import VersionedTables.Proofs.Engine.SchemaChanges
import VersionedTables.Proofs.Backup.Chunks
import VersionedTables.Proofs.Backup.Written
import VersionedTables.Proofs.Backup.Items
import VersionedTables.Proofs.Backup.Outcome
import VersionedTables.Proofs.Engine.Parts
import VersionedTables.Proofs.Column.Normal
import VersionedTables.Proofs.Engine.StoredColumns
import VersionedTables.Proofs.Engine.Since
import VersionedTables.Proofs.Engine.Pages
import VersionedTables.Proofs.Engine.BoundTables
import VersionedTables.Proofs.Text.Order
import VersionedTables.Proofs.Column.Listing
import VersionedTables.Proofs.Engine.ListedColumns
import VersionedTables.Proofs.Log.Retained
import VersionedTables.Proofs.Engine.SharedStores
import VersionedTables.Proofs.Schema.Lookups
import VersionedTables.Proofs.Engine.Lookups
