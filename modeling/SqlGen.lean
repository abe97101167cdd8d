import SqlGen.Cache
import SqlGen.Decimal.Binary64
import SqlGen.Decimal.Natural
import SqlGen.Decimal.Real
import SqlGen.Decimal.Shortest
import SqlGen.Dialect
import SqlGen.Doc
import SqlGen.Error
import SqlGen.Expr.Basic
import SqlGen.Expr.Builder
import SqlGen.Expr.Equality
import SqlGen.Expr.Operator
import SqlGen.Expr.Print
import SqlGen.Expr.Slots
import SqlGen.Method.Basic
import SqlGen.Method.Catalog
import SqlGen.Method.Translator
import SqlGen.Pass.Basic
import SqlGen.Pass.Nullability
import SqlGen.Pass.Revision
import SqlGen.Pass.Substitution
import SqlGen.Printer
import SqlGen.Proofs.Cache
import SqlGen.Proofs.Decimal
import SqlGen.Proofs.Equality.Congruence
import SqlGen.Proofs.Equality.Copy
import SqlGen.Proofs.Equality.Memory
import SqlGen.Proofs.Layout
import SqlGen.Proofs.Method.Catalog
import SqlGen.Proofs.Pass.Children
import SqlGen.Proofs.Pass.Division
import SqlGen.Proofs.Pass.Evaluation
import SqlGen.Proofs.Pass.Flags
import SqlGen.Proofs.Pass.Identity
import SqlGen.Proofs.Pass.NormalForm
import SqlGen.Proofs.Pass.NullConstant
import SqlGen.Proofs.Pass.Nullability
import SqlGen.Proofs.Pass.Outcome
import SqlGen.Proofs.Pass.Rebuild
import SqlGen.Proofs.Pass.Sequence
import SqlGen.Proofs.Pass.Stable
import SqlGen.Proofs.Pass.Success
import SqlGen.Proofs.Pass.Typing
import SqlGen.Proofs.Pass.Visit
import SqlGen.Proofs.Printing.Comment
import SqlGen.Proofs.Printing.Frame
import SqlGen.Proofs.Printing.Indentation
import SqlGen.Proofs.Printing.Inlining
import SqlGen.Proofs.Printing.Mention
import SqlGen.Proofs.Printing.NullLiteral
import SqlGen.Proofs.Printing.Parameters
import SqlGen.Proofs.Printing.Piece
import SqlGen.Proofs.Printing.Quiet
import SqlGen.Proofs.Printing.Quotation
import SqlGen.Proofs.Printing.Scan
import SqlGen.Proofs.Printing.Subquery
import SqlGen.Proofs.Reading.Acceptance
import SqlGen.Proofs.Reading.Arithmetic
import SqlGen.Proofs.Reading.Derivation
import SqlGen.Proofs.Reading.Formula
import SqlGen.Proofs.Reading.Grouping
import SqlGen.Proofs.Reading.Lexeme
import SqlGen.Proofs.Reading.Parser
import SqlGen.Proofs.Reading.Predicate
import SqlGen.Proofs.Reading.Spelling
import SqlGen.Proofs.Reading.Term
import SqlGen.Proofs.Reading.Token
import SqlGen.Proofs.Reading.Unquote
import SqlGen.Proofs.Reading.Words
import SqlGen.Proofs.Sqlite.Connection
import SqlGen.Proofs.Sqlite.Options
import SqlGen.Proofs.Sqlite.Order
import SqlGen.Proofs.Sqlite.Translation
import SqlGen.Proofs.Update.Expectation
import SqlGen.Proofs.Update.Form
import SqlGen.Proofs.Update.Meaning
import SqlGen.Proofs.Update.Naming
import SqlGen.Proofs.Update.Offer
import SqlGen.Proofs.Update.Placeholder
import SqlGen.Proofs.Update.ReadBack
import SqlGen.Proofs.Update.Reference
import SqlGen.Proofs.Update.Report
import SqlGen.Proofs.Update.ResultSets
import SqlGen.Proofs.Update.Returning
import SqlGen.Proofs.Update.Run
import SqlGen.Proofs.Update.Script
import SqlGen.Proofs.Update.Shape
import SqlGen.Proofs.Update.Statements
import SqlGen.Sqlite.Functions
import SqlGen.Sqlite.Generator
import SqlGen.Sqlite.Options
import SqlGen.Sqlite.Provider
import SqlGen.Sqlite.Types
import SqlGen.Text.Blank
import SqlGen.Text.Form
import SqlGen.Text.Hex
import SqlGen.Text.Quoted
import SqlGen.Text.Utf8
import SqlGen.Update.Batch
import SqlGen.Update.Generator
import SqlGen.Update.Row
import SqlGen.Update.Statement
import SqlGen.Value
