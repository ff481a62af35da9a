import QuerySignature.Description.Describe
import QuerySignature.Nesting.Collect
import QuerySignature.Proofs.Appended
import QuerySignature.Proofs.Arithmetic.Described
import QuerySignature.Proofs.Behind.Items
import QuerySignature.Proofs.Criteria.JoinedRows
import QuerySignature.Proofs.Criteria.NotNull
import QuerySignature.Proofs.Criteria.Statements
import QuerySignature.Proofs.Drawn.Described
import QuerySignature.Proofs.Fragments.Annotated
import QuerySignature.Proofs.Fragments.CommonTables
import QuerySignature.Proofs.Fragments.Dependencies
import QuerySignature.Proofs.Fragments.Relations
import QuerySignature.Proofs.Inlining.Described
import QuerySignature.Proofs.Mirrored.Described
import QuerySignature.Proofs.Nesting.ColumnValues
import QuerySignature.Proofs.Nesting.Complete
import QuerySignature.Proofs.Nesting.JoinColumn
import QuerySignature.Proofs.Nesting.RowOrder
import QuerySignature.Proofs.Pinned.Types
import QuerySignature.Proofs.Placeholders.Reported
import QuerySignature.Proofs.Printed.Flagged
import QuerySignature.Proofs.Printed.Indexes
import QuerySignature.Proofs.Printed.ReadBack
import QuerySignature.Proofs.Removal.Shape
import QuerySignature.Proofs.Schema.Index
import QuerySignature.Proofs.Solver.Equating
import QuerySignature.Proofs.Solver.Interleaving
import QuerySignature.Proofs.Solver.Maps
import QuerySignature.Proofs.Solver.Settled
import QuerySignature.Proofs.Solver.Widening
import QuerySignature.Proofs.Sorting.Sorted
import QuerySignature.Proofs.Sources.Reference
import QuerySignature.Proofs.Sources.WrittenOut
import QuerySignature.Proofs.Spelling.Described
import QuerySignature.Proofs.Stars
import QuerySignature.Proofs.Written.Inserted
import QuerySignature.Schema.Reading
