import RecordFilter.Text.Split
import RecordFilter.Text.Blank
import RecordFilter.Text.Search
import RecordFilter.Text.Order
import RecordFilter.Text.Bytes
import RecordFilter.Decimal.Layout
import RecordFilter.Decimal.Literal
import RecordFilter.Json.Printer
import RecordFilter.Json.Reader
import RecordFilter.Filter.Operator
import RecordFilter.Filter.Parse
import RecordFilter.Filter.Encoding
import RecordFilter.Date.Calendar
import RecordFilter.Date.Description
import RecordFilter.Date.Reading
import RecordFilter.Eval.Evaluator
import RecordFilter.Selection
import RecordFilter.Records
import RecordFilter.FileStore.Listing
import RecordFilter.Settings.Load
import RecordFilter.Command.Run
import RecordFilter.Main
import RecordFilter.Proofs.Filter.Tokens
import RecordFilter.Proofs.Filter.Brackets
import RecordFilter.Proofs.Filter.Reading
import RecordFilter.Proofs.Filter.Normal
import RecordFilter.Proofs.Filter.Spelling
import RecordFilter.Proofs.Filter.Canonical
import RecordFilter.Proofs.Filter.RoundTrip
import RecordFilter.Proofs.Selection.Conjunction
import RecordFilter.Proofs.Decimal.Integer
import RecordFilter.Proofs.Eval.Textual
import RecordFilter.Proofs.Filter.Comparisons
import RecordFilter.Proofs.Decimal.Interval
import RecordFilter.Proofs.Decimal.Written
import RecordFilter.Proofs.Filter.FirstDefect
import RecordFilter.Proofs.Json.Printed
import RecordFilter.Proofs.Selection.Distinct
import RecordFilter.Proofs.Selection.Sequence
import RecordFilter.Proofs.Eval.Reordering
import RecordFilter.Proofs.Eval.Faults
import RecordFilter.Proofs.Decimal.Magnitude
import RecordFilter.Proofs.Eval.WholeNumbers
import RecordFilter.Proofs.Eval.Duality
import RecordFilter.Proofs.Json.Numeral
import RecordFilter.Proofs.Json.Tokens
import RecordFilter.Proofs.Json.Rereading
import RecordFilter.Proofs.Json.ReadValues
import RecordFilter.Proofs.Records.Lines
import RecordFilter.Proofs.Filter.Encoding
import RecordFilter.Proofs.Command.AllOrNothing
import RecordFilter.Proofs.Date.Moments
import RecordFilter.Proofs.Date.Stamp
import RecordFilter.Proofs.Eval.Agreement
import RecordFilter.Proofs.Date.DefaultFormat
import RecordFilter.Proofs.Eval.OwnValues
import RecordFilter.Proofs.Eval.Membership
import RecordFilter.Proofs.Eval.Flattening
import RecordFilter.Proofs.Eval.Unread
import RecordFilter.Proofs.Filter.Ranges
import RecordFilter.Proofs.Filter.Descent
import RecordFilter.Proofs.Filter.Cuts
import RecordFilter.Proofs.Filter.Depth
import RecordFilter.Proofs.Filter.ErrorSpans
import RecordFilter.Proofs.Records.LineByLine
import RecordFilter.Proofs.Eval.Paths
