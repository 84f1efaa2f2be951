import RelQuery.Proofs.Mutation.Apart
import RelQuery.Proofs.Mutation.Delete
import RelQuery.Proofs.Mutation.Failure
import RelQuery.Proofs.Mutation.ReadOnly
import RelQuery.Proofs.Mutation.Shared
import RelQuery.Proofs.Path.Delivered
import RelQuery.Proofs.Path.Edges
import RelQuery.Proofs.Schema.Drafts
import RelQuery.Proofs.Select.Interchange
import RelQuery.Proofs.Select.Rereading
import RelQuery.Proofs.Value.Exact
import RelQuery.Proofs.Path.Starred
import RelQuery.Proofs.Path.Cleared
import RelQuery.Proofs.Store.Counter
import RelQuery.Proofs.Store.Whole
import RelQuery.Proofs.Aggregate
import RelQuery.Proofs.Expr.Arithmetic
import RelQuery.Proofs.Select.Distinct
import RelQuery.Proofs.Select.Frames
import RelQuery.Proofs.Expr.Conditions
import RelQuery.Proofs.Path.Hidden
import RelQuery.Proofs.Store.RowByRow
import RelQuery.Proofs.Pattern
import RelQuery.Proofs.Select.Sorted
import RelQuery.Proofs.Select.Groups
import RelQuery.Proofs.Store.Identifiers
import RelQuery.Proofs.Store.Versions
import RelQuery.Proofs.Value.Digest
import RelQuery.Proofs.Path.Attached
import RelQuery.Proofs.Path.Reversal
import RelQuery.Proofs.Schema.Keys
import RelQuery.Proofs.Select.Computed
import RelQuery.Proofs.Join.Advances
import RelQuery.Proofs.Select.Chains
import RelQuery.Proofs.Path.Levels
