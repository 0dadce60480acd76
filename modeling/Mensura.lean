import Mensura.Binary64.Basic
import Mensura.Binary64.Fraction
import Mensura.Binary64.Power
import Mensura.Binary64.Shortest
import Mensura.Binary64.TenPower
import Mensura.Command
import Mensura.Command.Arguments
import Mensura.Command.Session
import Mensura.Datum
import Mensura.Decimal.Log
import Mensura.Decimal.Reading
import Mensura.Dimension
import Mensura.Dimension.Derived
import Mensura.Dimension.Text
import Mensura.Document
import Mensura.Document.Source
import Mensura.Error
import Mensura.Expr
import Mensura.Expr.Eval
import Mensura.Expr.Parser
import Mensura.Expr.Token
import Mensura.Files
import Mensura.Files.Place
import Mensura.Formula
import Mensura.Formula.Parser
import Mensura.Formula.Table
import Mensura.Main
import Mensura.MetricPrefix
import Mensura.NamedFunction
import Mensura.Path
import Mensura.PhysUnit
import Mensura.PhysUnit.OfData
import Mensura.Proofs.Binary64.Arithmetic
import Mensura.Proofs.Binary64.Comparison
import Mensura.Proofs.Binary64.FirstDigit
import Mensura.Proofs.Binary64.Fraction
import Mensura.Proofs.Binary64.Integer
import Mensura.Proofs.Binary64.Nearest
import Mensura.Proofs.Binary64.OneHalf
import Mensura.Proofs.Binary64.Power
import Mensura.Proofs.Binary64.Range
import Mensura.Proofs.Binary64.Rebuilt
import Mensura.Proofs.Binary64.Restored
import Mensura.Proofs.Binary64.Rounding
import Mensura.Proofs.Binary64.Scale
import Mensura.Proofs.Binary64.Shift
import Mensura.Proofs.Binary64.SmallDenominator
import Mensura.Proofs.Binary64.Unpacked
import Mensura.Proofs.Binary64.Whole
import Mensura.Proofs.Command.Evaluation
import Mensura.Proofs.Command.Watching
import Mensura.Proofs.Decimal.General
import Mensura.Proofs.Decimal.Significant
import Mensura.Proofs.Document.Bindings
import Mensura.Proofs.Document.Composition
import Mensura.Proofs.Document.DeclaredLine
import Mensura.Proofs.Document.Entry
import Mensura.Proofs.Document.Execution
import Mensura.Proofs.Document.Faults
import Mensura.Proofs.Document.FirstFailure
import Mensura.Proofs.Document.Items
import Mensura.Proofs.Document.PrintedLine
import Mensura.Proofs.Document.RawText
import Mensura.Proofs.Document.Renaming
import Mensura.Proofs.Document.Separation
import Mensura.Proofs.Expr.Attachment
import Mensura.Proofs.Expr.Binding
import Mensura.Proofs.Expr.Blank
import Mensura.Proofs.Expr.Cut
import Mensura.Proofs.Expr.Dependence
import Mensura.Proofs.Expr.Derivation
import Mensura.Proofs.Expr.DimensionCheck
import Mensura.Proofs.Expr.Exponent
import Mensura.Proofs.Expr.InOrder
import Mensura.Proofs.Expr.Lexeme
import Mensura.Proofs.Expr.Longest
import Mensura.Proofs.Expr.Lossless
import Mensura.Proofs.Expr.Numeral
import Mensura.Proofs.Expr.Reference
import Mensura.Proofs.Expr.Rounding
import Mensura.Proofs.Expr.Symbolic
import Mensura.Proofs.Expr.UnitReading
import Mensura.Proofs.Expr.UnitRow
import Mensura.Proofs.Expr.UnitRun
import Mensura.Proofs.Expr.Written
import Mensura.Proofs.Faults
import Mensura.Proofs.Formula.Faithful
import Mensura.Proofs.Formula.Precedence
import Mensura.Proofs.Formula.TruthTable
import Mensura.Proofs.Formula.Word
import Mensura.Proofs.Outcome
import Mensura.Proofs.Quantity.Amount
import Mensura.Proofs.Quantity.Equality
import Mensura.Proofs.Quantity.Exponent
import Mensura.Proofs.Quantity.Extremum
import Mensura.Proofs.Quantity.IntegerPower
import Mensura.Proofs.Quantity.NearestInteger
import Mensura.Proofs.Quantity.Normal
import Mensura.Proofs.Quantity.Rounding
import Mensura.Proofs.Quantity.Sum
import Mensura.Proofs.Quantity.WholeExponent
import Mensura.Proofs.Quantity.Zero
import Mensura.Proofs.Registry.BaseUnits
import Mensura.Proofs.Registry.Entries
import Mensura.Proofs.Registry.Label
import Mensura.Proofs.Registry.Membership
import Mensura.Proofs.Registry.Resolution
import Mensura.Proofs.Registry.Spelling
import Mensura.Proofs.Scalar.Display
import Mensura.Proofs.Scalar.Exact
import Mensura.Proofs.Scalar.Order
import Mensura.Proofs.Scalar.Rounding
import Mensura.Proofs.Text.Canonical
import Mensura.Proofs.Text.Integer
import Mensura.Proofs.Text.Lines
import Mensura.Proofs.Text.Run
import Mensura.Proofs.Typeset.Coefficient
import Mensura.Proofs.Typeset.Denotation
import Mensura.Proofs.Typeset.Display
import Mensura.Proofs.Typeset.Factors
import Mensura.Proofs.Typeset.Formula
import Mensura.Proofs.Typeset.Grouping
import Mensura.Proofs.Typeset.Reading
import Mensura.Proofs.UnitExpr.Flattening
import Mensura.Proofs.UnitExpr.Grammar
import Mensura.Proofs.UnitExpr.Label
import Mensura.Proofs.UnitExpr.Names
import Mensura.Proofs.UnitExpr.Reading
import Mensura.Proofs.UnitExpr.Row
import Mensura.Proofs.UnitExpr.Shown
import Mensura.Proofs.UnitExpr.Total
import Mensura.Quantity
import Mensura.Quantity.Express
import Mensura.Quantity.Function
import Mensura.Registry
import Mensura.Registry.Standard
import Mensura.Scalar
import Mensura.Scalar.Binary64
import Mensura.Scalar.Exact
import Mensura.Scalar.Fault
import Mensura.Scope
import Mensura.Settings
import Mensura.Settings.Load
import Mensura.Settings.Toml
import Mensura.Statement
import Mensura.Statement.Parser
import Mensura.Text.Blank
import Mensura.Text.Canonical
import Mensura.Text.Class
import Mensura.Text.Control
import Mensura.Text.Decomposition
import Mensura.Text.Integer
import Mensura.Text.Letters
import Mensura.Text.Lines
import Mensura.Text.Numerals
import Mensura.Text.Printable
import Mensura.Text.Quoted
import Mensura.Text.Real
import Mensura.Text.Utf8
import Mensura.Typeset.Dimension
import Mensura.Typeset.Expr
import Mensura.Typeset.Quantity
import Mensura.Typeset.Unit
import Mensura.UnitExpr
import Mensura.UnitExpr.Parser
import Mensura.Watch
