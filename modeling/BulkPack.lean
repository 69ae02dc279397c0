import BulkPack.Main
import BulkPack.World
import BulkPack.Sink.Bounded
import BulkPack.Proofs.Payload
import BulkPack.Proofs.Packing.Rejected
import BulkPack.Proofs.Json.Fields
import BulkPack.Proofs.Manifest.Document
import BulkPack.Proofs.Manifest.Saved
import BulkPack.Proofs.Faults
import BulkPack.Proofs.Packing.Listed
import BulkPack.Proofs.Packing.Guarded
import BulkPack.Proofs.Packing.Opening
import BulkPack.Proofs.Packing.Consistency
import BulkPack.Proofs.Packing.Rerun
import BulkPack.Proofs.Packing.Inspected
import BulkPack.Proofs.Packing.Budgets
import BulkPack.Proofs.Body.Ledger
import BulkPack.Proofs.Body.Emptied
import BulkPack.Proofs.Line.Format
import BulkPack.Proofs.Line.Layout
import BulkPack.Proofs.Line.Ids
import BulkPack.Proofs.Size.Accuracy
import BulkPack.Proofs.Size.Display
import BulkPack.Proofs.Packing.Reported
import BulkPack.Proofs.Packing.Removal
import BulkPack.Proofs.Packing.Filled
import BulkPack.Proofs.Packing.Interrupted
import BulkPack.Proofs.Body.Queries
import BulkPack.Proofs.Text.Grouped
