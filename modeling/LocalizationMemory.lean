import LocalizationMemory.Adoption
import LocalizationMemory.Archive.Action
import LocalizationMemory.Archive.Basic
import LocalizationMemory.Archive.Binding
import LocalizationMemory.Archive.History
import LocalizationMemory.Archive.Maintenance
import LocalizationMemory.Archive.Mods
import LocalizationMemory.Archive.Named
import LocalizationMemory.Archive.Race
import LocalizationMemory.Archive.Renderings
import LocalizationMemory.Archive.Resolution
import LocalizationMemory.Archive.Rival
import LocalizationMemory.Archive.Schema
import LocalizationMemory.Archive.Table
import LocalizationMemory.Archive.Trace
import LocalizationMemory.Archive.Versions
import LocalizationMemory.Comparison
import LocalizationMemory.Comparison.Merge
import LocalizationMemory.Connection
import LocalizationMemory.Decimal
import LocalizationMemory.Decimal.Shortest
import LocalizationMemory.Digest.Sha256
import LocalizationMemory.Disk
import LocalizationMemory.Disk.Opening
import LocalizationMemory.Event
import LocalizationMemory.Fault
import LocalizationMemory.Fingerprint
import LocalizationMemory.Json.Fault
import LocalizationMemory.Json.Number
import LocalizationMemory.Json.Reader
import LocalizationMemory.Json.Records
import LocalizationMemory.Json.Shape
import LocalizationMemory.Json.Skip
import LocalizationMemory.Json.Text
import LocalizationMemory.Key
import LocalizationMemory.Key.Index
import LocalizationMemory.Key.Lookup
import LocalizationMemory.Location
import LocalizationMemory.Path
import LocalizationMemory.Proofs.Accounting
import LocalizationMemory.Proofs.Adoption
import LocalizationMemory.Proofs.Alike
import LocalizationMemory.Proofs.Archive.Action
import LocalizationMemory.Proofs.Archive.Archiving
import LocalizationMemory.Proofs.Archive.Batch
import LocalizationMemory.Proofs.Archive.Binding
import LocalizationMemory.Proofs.Archive.Consistency
import LocalizationMemory.Proofs.Archive.Growth
import LocalizationMemory.Proofs.Archive.History
import LocalizationMemory.Proofs.Archive.Lineage
import LocalizationMemory.Proofs.Archive.Links
import LocalizationMemory.Proofs.Archive.Operation
import LocalizationMemory.Proofs.Archive.Preference
import LocalizationMemory.Proofs.Archive.Quiet
import LocalizationMemory.Proofs.Archive.Resolution
import LocalizationMemory.Proofs.Archive.Revisions
import LocalizationMemory.Proofs.Archive.Snapshot
import LocalizationMemory.Proofs.Archive.Steady
import LocalizationMemory.Proofs.Archive.Table
import LocalizationMemory.Proofs.Archive.Write
import LocalizationMemory.Proofs.Calls
import LocalizationMemory.Proofs.Comparison
import LocalizationMemory.Proofs.Confinement
import LocalizationMemory.Proofs.Convergence
import LocalizationMemory.Proofs.Copying
import LocalizationMemory.Proofs.Corrections
import LocalizationMemory.Proofs.Deduplication
import LocalizationMemory.Proofs.Dict
import LocalizationMemory.Proofs.Disk
import LocalizationMemory.Proofs.ExactCorrections
import LocalizationMemory.Proofs.Failure
import LocalizationMemory.Proofs.Fingerprint
import LocalizationMemory.Proofs.FreshPlan
import LocalizationMemory.Proofs.Index
import LocalizationMemory.Proofs.Isolation
import LocalizationMemory.Proofs.Languages
import LocalizationMemory.Proofs.Later
import LocalizationMemory.Proofs.LifeCycle
import LocalizationMemory.Proofs.Linearization
import LocalizationMemory.Proofs.Matching
import LocalizationMemory.Proofs.MergedSource
import LocalizationMemory.Proofs.Migration
import LocalizationMemory.Proofs.ModRace
import LocalizationMemory.Proofs.NewestRendering
import LocalizationMemory.Proofs.Offers
import LocalizationMemory.Proofs.Placement
import LocalizationMemory.Proofs.Reachability
import LocalizationMemory.Proofs.ReadBack
import LocalizationMemory.Proofs.RepeatedKeys
import LocalizationMemory.Proofs.Requests
import LocalizationMemory.Proofs.Reuse
import LocalizationMemory.Proofs.Runs
import LocalizationMemory.Proofs.Settings.Decimal
import LocalizationMemory.Proofs.Settings.EnvFile
import LocalizationMemory.Proofs.Settings.Precedence
import LocalizationMemory.Proofs.SnapshotRace
import LocalizationMemory.Proofs.Sorting
import LocalizationMemory.Proofs.Source
import LocalizationMemory.Proofs.Store
import LocalizationMemory.Proofs.Text.ByteOrder
import LocalizationMemory.Proofs.Transfer
import LocalizationMemory.Proofs.Update
import LocalizationMemory.Proofs.VersionLists
import LocalizationMemory.Proofs.WholeBatch
import LocalizationMemory.Proofs.WholeSnapshot
import LocalizationMemory.Rendering
import LocalizationMemory.Settings
import LocalizationMemory.Settings.EnvFile
import LocalizationMemory.Settings.Environment
import LocalizationMemory.Sorting
import LocalizationMemory.Source
import LocalizationMemory.Store
import LocalizationMemory.Store.Rival
import LocalizationMemory.Text.Alphanumeric
import LocalizationMemory.Text.Blank
import LocalizationMemory.Text.Bytes
import LocalizationMemory.Text.Dict
import LocalizationMemory.Text.Hex
import LocalizationMemory.Text.Hidden
import LocalizationMemory.Text.Quoted
import LocalizationMemory.Text.Ranges
import LocalizationMemory.Update
import LocalizationMemory.Update.Writes
