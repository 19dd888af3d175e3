import DocumentDb.Collection.Basic
import DocumentDb.Collection.Find
import DocumentDb.Collection.Indexing
import DocumentDb.Collection.Operation
import DocumentDb.Collection.Plan
import DocumentDb.Collection.Settings
import DocumentDb.Collection.Write
import DocumentDb.Document.Access
import DocumentDb.Document.Fields
import DocumentDb.Fault
import DocumentDb.Filter.Match
import DocumentDb.Filter.Operator
import DocumentDb.Index.Basic
import DocumentDb.Index.Registry
import DocumentDb.Key.Composite
import DocumentDb.Key.Realize
import DocumentDb.Key.Spec
import DocumentDb.Number.Basic
import DocumentDb.Number.Binary64
import DocumentDb.Number.Decimal
import DocumentDb.Proofs.Chain
import DocumentDb.Proofs.Collection.Agreement
import DocumentDb.Proofs.Collection.Anchored
import DocumentDb.Proofs.Collection.Batch.Basic
import DocumentDb.Proofs.Collection.Batch.Insert
import DocumentDb.Proofs.Collection.Batch.Reload
import DocumentDb.Proofs.Collection.Batch.Rivals
import DocumentDb.Proofs.Collection.Batch.Update
import DocumentDb.Proofs.Collection.ById
import DocumentDb.Proofs.Collection.Choice
import DocumentDb.Proofs.Collection.Clash
import DocumentDb.Proofs.Collection.Consistency
import DocumentDb.Proofs.Collection.Contents
import DocumentDb.Proofs.Collection.Coverage
import DocumentDb.Proofs.Collection.Disagreement
import DocumentDb.Proofs.Collection.Ensure
import DocumentDb.Proofs.Collection.Enter
import DocumentDb.Proofs.Collection.Find
import DocumentDb.Proofs.Collection.Identity
import DocumentDb.Proofs.Collection.InStep
import DocumentDb.Proofs.Collection.Integrity
import DocumentDb.Proofs.Collection.Move
import DocumentDb.Proofs.Collection.Narrowing
import DocumentDb.Proofs.Collection.Planning
import DocumentDb.Proofs.Collection.Probe
import DocumentDb.Proofs.Collection.Rebuild
import DocumentDb.Proofs.Collection.Rejection
import DocumentDb.Proofs.Collection.Remove
import DocumentDb.Proofs.Collection.RoundTrip
import DocumentDb.Proofs.Collection.Separation
import DocumentDb.Proofs.Collection.Soundness
import DocumentDb.Proofs.Collection.Uniqueness
import DocumentDb.Proofs.Collection.Update
import DocumentDb.Proofs.Document.Descend
import DocumentDb.Proofs.Document.Edit
import DocumentDb.Proofs.Document.Entries
import DocumentDb.Proofs.Document.Frame
import DocumentDb.Proofs.Document.Id
import DocumentDb.Proofs.Document.Items
import DocumentDb.Proofs.Document.Leaves
import DocumentDb.Proofs.Document.Merge
import DocumentDb.Proofs.Document.ReadBack
import DocumentDb.Proofs.Document.Rebuild
import DocumentDb.Proofs.Document.Removal
import DocumentDb.Proofs.Document.Repeat
import DocumentDb.Proofs.Document.Siblings
import DocumentDb.Proofs.Document.Wide
import DocumentDb.Proofs.Document.Write
import DocumentDb.Proofs.Document.Writes
import DocumentDb.Proofs.FaultKinds
import DocumentDb.Proofs.Filter.Asking
import DocumentDb.Proofs.Filter.Checks
import DocumentDb.Proofs.Filter.Constraint
import DocumentDb.Proofs.Filter.Malformed
import DocumentDb.Proofs.Filter.Reach
import DocumentDb.Proofs.Filter.Read
import DocumentDb.Proofs.Index.Alike
import DocumentDb.Proofs.Index.Buckets
import DocumentDb.Proofs.Index.Consistent
import DocumentDb.Proofs.Index.Lookup
import DocumentDb.Proofs.Index.LookupOrder
import DocumentDb.Proofs.Index.Only
import DocumentDb.Proofs.Index.Rekeyed
import DocumentDb.Proofs.Index.Supplied
import DocumentDb.Proofs.Key.Description
import DocumentDb.Proofs.Key.Leaves
import DocumentDb.Proofs.Key.Naming
import DocumentDb.Proofs.Key.Odometer
import DocumentDb.Proofs.Key.Order
import DocumentDb.Proofs.Key.Read
import DocumentDb.Proofs.Key.Realize
import DocumentDb.Proofs.Key.Total
import DocumentDb.Proofs.Key.TotalOrder
import DocumentDb.Proofs.Lists
import DocumentDb.Proofs.Number.Integer
import DocumentDb.Proofs.Number.Magnitude
import DocumentDb.Proofs.Number.Place
import DocumentDb.Proofs.Outcome
import DocumentDb.Proofs.Store.History
import DocumentDb.Proofs.Store.Isolation
import DocumentDb.Proofs.Text.Path
import DocumentDb.Proofs.Value.Collated
import DocumentDb.Proofs.Value.Digest
import DocumentDb.Proofs.Value.Exact
import DocumentDb.Proofs.Value.Order
import DocumentDb.Store
import DocumentDb.Text.Collation
import DocumentDb.Text.Path
import DocumentDb.Text.Quoted
import DocumentDb.Value.Basic
import DocumentDb.Value.Collated
import DocumentDb.Value.Digest
