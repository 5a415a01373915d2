import Stencil.DataFile
import Stencil.Fill.Template
import Stencil.Options.Reading
import Stencil.Template.Reading
import Stencil.Template.Writing
import Stencil.Value.Datum
import Stencil.Value.Same
import Stencil.Proofs.Sheet.Cells
import Stencil.Proofs.Sheet.Expansion
import Stencil.Proofs.Placeholder.Scan
import Stencil.Proofs.Sheet.Visit
import Stencil.Proofs.Sheet.Merged
import Stencil.Proofs.Sheet.Written
import Stencil.Proofs.Sheet.Walk
import Stencil.Proofs.Sheet.Content
import Stencil.Proofs.Sheet.Load
import Stencil.Proofs.Sheet.Termination
import Stencil.Proofs.Sheet.Siblings
import Stencil.Proofs.Document.Agreement
import Stencil.Proofs.Document.Expansion
import Stencil.Proofs.Document.Interference
import Stencil.Proofs.Paragraph.Alignment
import Stencil.Proofs.Placeholder.Whole
import Stencil.Proofs.Paragraph.Scalars
import Stencil.Proofs.Document.Survey
import Stencil.Proofs.Sheet.Scalars
import Stencil.Proofs.Sheet.Survey
import Stencil.Proofs.Survey
import Stencil.Proofs.Termination
import Stencil.Proofs.Sheet.Tally
import Stencil.Proofs.Placeholder.Survey
import Stencil.Proofs.Sheet.Texts
import Stencil.Proofs.Sheet.Unresolved
import Stencil.Proofs.Sheet.Leftover
import Stencil.Proofs.Leftover
import Stencil.Proofs.Scalars
import Stencil.Proofs.Paragraph.Styles
import Stencil.Proofs.Document.Completion
import Stencil.Proofs.Scope
import Stencil.Proofs.Batch
import Stencil.Proofs.Cancellation
import Stencil.Proofs.Calendar.Pattern
import Stencil.Proofs.Paragraph.Exchange
import Stencil.Proofs.Document.ClosedForm
import Stencil.Proofs.Document.Kept
import Stencil.Proofs.Decimal.Digits
import Stencil.Proofs.Calendar.DateTime
import Stencil.Proofs.Json.Lexer
import Stencil.Proofs.Json.Reader
import Stencil.Proofs.Json.Markup
import Stencil.Proofs.Template.RoundTrip
import Stencil.Proofs.Paragraph.Cover
import Stencil.Proofs.Paragraph.Splice
import Stencil.Proofs.Value.Sections
import Stencil.Proofs.Value.Segments
import Stencil.Proofs.Value.Children
import Stencil.Proofs.Placeholder.Words
import Stencil.Proofs.Placeholder.Places
import Stencil.Proofs.Placeholder.Decomposition
import Stencil.Proofs.Gate
import Stencil.Proofs.Sheet.Shift
import Stencil.Proofs.Toml.Loading
import Stencil.Proofs.Value.Equality
import Stencil.Proofs.Value.Datum
