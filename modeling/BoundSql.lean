import BoundSql.Build.Plan
import BoundSql.Trace
import BoundSql.Wire
import BoundSql.Proofs.Scanner
import BoundSql.Proofs.Wording
import BoundSql.Proofs.Alignment
import BoundSql.Proofs.Leaves
import BoundSql.Proofs.Masking
import BoundSql.Proofs.Composition
import BoundSql.Proofs.BindingOrder
import BoundSql.Proofs.Acceptance
import BoundSql.Proofs.Filtering
import BoundSql.Proofs.Union
import BoundSql.Proofs.Places
import BoundSql.Proofs.CopiedTexts
import BoundSql.Proofs.BoundValues
import BoundSql.Proofs.MappedSteps
import BoundSql.Proofs.Reading
import BoundSql.Proofs.Unambiguity
import BoundSql.Proofs.Edits
import BoundSql.Proofs.Independence
import BoundSql.Proofs.Rejection
import BoundSql.Proofs.NotedFaults
import BoundSql.Proofs.Reachability
import BoundSql.Proofs.Vectors
import BoundSql.Proofs.Precedence
import BoundSql.Proofs.Comparisons
import BoundSql.Proofs.Records
import BoundSql.Proofs.Batches
import BoundSql.Proofs.Quoting
import BoundSql.Proofs.Bytes
import BoundSql.Proofs.Numerals
import BoundSql.Proofs.CaseScripts
import BoundSql.Proofs.OpenedCases
import BoundSql.Proofs.Ranges
import BoundSql.Proofs.Tracing
import BoundSql.Proofs.WireReading
import BoundSql.Proofs.OrderedRecords
import BoundSql.Proofs.Tokens
