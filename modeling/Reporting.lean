import Reporting.Document.Definition
import Reporting.Json.Printer
import Reporting.Proofs.Expr.Reading
import Reporting.Json.Reader
import Reporting.Proofs.Function.Strict
import Reporting.Proofs.Query.Advance
import Reporting.Proofs.Query.Counter
import Reporting.Proofs.Query.Forest
import Reporting.Proofs.Query.Locality
import Reporting.Proofs.Query.Previous
import Reporting.Proofs.Query.Reachable
import Reporting.Proofs.Query.Restarts
import Reporting.Proofs.Query.Rows
import Reporting.Proofs.Query.Search
import Reporting.Proofs.Query.Standing
import Reporting.Proofs.Query.Still
import Reporting.Proofs.Query.Walk
import Reporting.Proofs.Function.Regrouping
import Reporting.Proofs.Function.Leading
import Reporting.Proofs.Function.Traits
import Reporting.Proofs.Expr.Joining
import Reporting.Proofs.Expr.Simplifying
import Reporting.Proofs.Expr.Compiled
import Reporting.Proofs.Expr.Optimized
import Reporting.Proofs.Function.Exact
import Reporting.Proofs.Expr.Alike
import Reporting.Proofs.Query.Alike
import Reporting.Proofs.Temporal.Months
import Reporting.Proofs.Query.Links
import Reporting.Proofs.Query.Arena
import Reporting.Proofs.Report.Row
import Reporting.Proofs.Report.Turns
import Reporting.Proofs.Report.Reachable
import Reporting.Proofs.Report.Course
import Reporting.Proofs.Report.Groups
import Reporting.Proofs.Report.Triggers
import Reporting.Proofs.Report.Totals
import Reporting.Proofs.Report.Aggregates
import Reporting.Proofs.Report.Precalculated
import Reporting.Proofs.Formula.Roundtrip
import Reporting.Proofs.Formula.Derivations
import Reporting.Proofs.Formula.Whole
import Reporting.Proofs.Report.Rerun
import Reporting.Proofs.Decimal.Quotient
import Reporting.Proofs.Decimal.Canonical
import Reporting.Proofs.Temporal.Carry
import Reporting.Proofs.Expr.Normal
import Reporting.Proofs.Expr.Arity
import Reporting.Proofs.Temporal.Roundtrip
import Reporting.Proofs.Document.Reachable
import Reporting.Proofs.Query.Families
import Reporting.Proofs.Expr.Sources
import Reporting.Proofs.Report.References
import Reporting.Proofs.Expr.History
import Reporting.Proofs.Report.Backwards
import Reporting.Proofs.Temporal.Years
import Reporting.Proofs.Temporal.Shifts
import Reporting.Proofs.Temporal.Intervals
import Reporting.Proofs.Temporal.Differences
import Reporting.Proofs.Temporal.Additive
import Reporting.Proofs.Decimal.Sums
import Reporting.Proofs.Decimal.Remainder
import Reporting.Proofs.Decimal.Fixed
import Reporting.Proofs.Decimal.Integers
import Reporting.Proofs.Decimal.Powers
import Reporting.Proofs.Expr.Folding
import Reporting.Proofs.Expr.Iteration
import Reporting.Proofs.Report.Chains
import Reporting.Proofs.Report.Passes
import Reporting.Proofs.Report.Customs
import Reporting.Proofs.Function.Precedence
import Reporting.Proofs.Report.Averages
import Reporting.Proofs.Expr.Lagging
import Reporting.Proofs.Report.Renewal
import Reporting.Proofs.Function.Weeks
import Reporting.Proofs.Function.Comparison
import Reporting.Proofs.Function.Conversions
import Reporting.Proofs.Text.Utf8
import Reporting.Proofs.Formula.Joined
import Reporting.Proofs.Formula.Numerals
import Reporting.Proofs.Document.Handed
