import Reckoner.Text.Cursor
import Reckoner.Decimal.Notation
import Reckoner.CommandLine.Program
import Reckoner.Main
import Reckoner.Proofs.Text.Tokens
import Reckoner.Proofs.Text.Lines
import Reckoner.Proofs.Text.Cursor
import Reckoner.Proofs.Dialogue.Script
import Reckoner.Proofs.Dialogue.Limit
import Reckoner.Proofs.Text.LowerCase
import Reckoner.Proofs.Dialogue.Exit
import Reckoner.Proofs.CommandLine.Spelling
import Reckoner.Proofs.CommandLine.Choices
import Reckoner.Proofs.CommandLine.Resolution
import Reckoner.Proofs.Screening.Search
import Reckoner.Proofs.Screening.Decision
import Reckoner.Proofs.Expression.Opening
import Reckoner.Proofs.Expression.Parts
import Reckoner.Proofs.Expression.Depth
import Reckoner.Proofs.Expression.Counter
import Reckoner.Proofs.Expression.Progress
import Reckoner.Proofs.Grammar.Acceptance
import Reckoner.Proofs.Expression.Moves
import Reckoner.Proofs.Expression.Steps
import Reckoner.Proofs.Expression.Threshold
import Reckoner.Proofs.Expression.Spacing
import Reckoner.Proofs.Expression.Faults
import Reckoner.Proofs.Grammar.Layout
import Reckoner.Proofs.Grammar.Meaning
import Reckoner.Proofs.Grammar.Remainder
import Reckoner.Proofs.Grammar.Unclosed
import Reckoner.Proofs.Shorthand.Formula
import Reckoner.Proofs.Expression.Endings
import Reckoner.Proofs.Shorthand.Respelling
import Reckoner.Proofs.Grammar.Composition
import Reckoner.Proofs.Shorthand.Occurrence
import Reckoner.Proofs.Shorthand.NormalForm
import Reckoner.Proofs.Double.Ranks
import Reckoner.Proofs.Double.Nearest
import Reckoner.Proofs.Double.Naturals
import Reckoner.Proofs.Shorthand.WholeDivision
import Reckoner.Proofs.Decimal.Shortest
import Reckoner.Proofs.Decimal.Digits
import Reckoner.Proofs.Decimal.Spelling
import Reckoner.Proofs.Decimal.Reading
import Reckoner.Proofs.Decimal.Shape
import Reckoner.Proofs.Dialogue.Echo
import Reckoner.Proofs.Shorthand.Leftmost
import Reckoner.Proofs.Shorthand.Locality
import Reckoner.Proofs.Shorthand.Chain
import Reckoner.Proofs.Expression.Charge
import Reckoner.Proofs.Shorthand.Nesting
import Reckoner.Proofs.Screening.Completeness
import Reckoner.Proofs.Dialogue.LineFeeds
import Reckoner.Proofs.Double.Correct
import Reckoner.Proofs.Decimal.Literal
