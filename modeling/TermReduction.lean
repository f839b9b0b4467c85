import TermReduction.Binary64.Basic
import TermReduction.Binary64.Elementary
import TermReduction.Binary64.Shortest
import TermReduction.Bindings
import TermReduction.Constant
import TermReduction.Decimal.Basic
import TermReduction.Decimal.Checked
import TermReduction.Decimal.Text
import TermReduction.DigitCount
import TermReduction.Digits
import TermReduction.Error
import TermReduction.Fixed.Basic
import TermReduction.Fixed.Checked
import TermReduction.Fraction.Basic
import TermReduction.Fraction.Chain
import TermReduction.Fraction.Checked
import TermReduction.Json
import TermReduction.Logarithm
import TermReduction.Number.Arithmetic
import TermReduction.Number.Basic
import TermReduction.Number.Calculation
import TermReduction.Number.Text
import TermReduction.Numeral
import TermReduction.Numeral.Grammar
import TermReduction.Numeral.Pattern
import TermReduction.Operator.Application
import TermReduction.Operator.Basic
import TermReduction.Power
import TermReduction.Proofs.Binary64.Integer
import TermReduction.Proofs.Binary64.Logarithm
import TermReduction.Proofs.Binary64.Rounding
import TermReduction.Proofs.Binary64.Shortest
import TermReduction.Proofs.Decimal.Root
import TermReduction.Proofs.Decimal.Value
import TermReduction.Proofs.Digits
import TermReduction.Proofs.Except
import TermReduction.Proofs.Fixed.Closest
import TermReduction.Proofs.Fixed.Nearest
import TermReduction.Proofs.Fixed.Negation
import TermReduction.Proofs.Fixed.Value
import TermReduction.Proofs.Fraction.Chain
import TermReduction.Proofs.Fraction.Value
import TermReduction.Proofs.Identifier
import TermReduction.Proofs.Json
import TermReduction.Proofs.Logarithm
import TermReduction.Proofs.Logarithm.Antilog
import TermReduction.Proofs.Logarithm.Rounded
import TermReduction.Proofs.Logarithm.Scaling
import TermReduction.Proofs.Number.Calculation
import TermReduction.Proofs.Number.Canonical
import TermReduction.Proofs.Number.Conversion
import TermReduction.Proofs.Number.Division
import TermReduction.Proofs.Number.Domain
import TermReduction.Proofs.Number.Exact
import TermReduction.Proofs.Number.Failure
import TermReduction.Proofs.Number.Inversion
import TermReduction.Proofs.Number.Negation
import TermReduction.Proofs.Number.Power
import TermReduction.Proofs.Number.PowersOfTen
import TermReduction.Proofs.Number.Reading
import TermReduction.Proofs.Number.Root
import TermReduction.Proofs.Number.Rounded
import TermReduction.Proofs.Number.Text
import TermReduction.Proofs.Number.Value
import TermReduction.Proofs.Number.WellFormed
import TermReduction.Proofs.Numeral.Errors
import TermReduction.Proofs.Numeral.Grammar
import TermReduction.Proofs.Numeral.Pattern
import TermReduction.Proofs.Numeral.Spelling
import TermReduction.Proofs.Numeral.Value
import TermReduction.Proofs.Operator.Failure
import TermReduction.Proofs.Operator.Naming
import TermReduction.Proofs.Operator.Reordering
import TermReduction.Proofs.Power
import TermReduction.Proofs.Reduction.History
import TermReduction.Proofs.Reduction.Length
import TermReduction.Proofs.Reduction.Naming
import TermReduction.Proofs.Reduction.Path
import TermReduction.Proofs.Reduction.Rebinding
import TermReduction.Proofs.Reduction.Resumption
import TermReduction.Proofs.Reduction.Run
import TermReduction.Proofs.Reduction.Step
import TermReduction.Proofs.Rounding
import TermReduction.Proofs.Schema.Literals
import TermReduction.Proofs.Term.Canonical
import TermReduction.Proofs.Term.Classification
import TermReduction.Proofs.Term.Commutation
import TermReduction.Proofs.Term.Constants
import TermReduction.Proofs.Term.Descent
import TermReduction.Proofs.Term.Document
import TermReduction.Proofs.Term.Evaluation
import TermReduction.Proofs.Term.Extension
import TermReduction.Proofs.Term.Failure
import TermReduction.Proofs.Term.Folding
import TermReduction.Proofs.Term.Grammar
import TermReduction.Proofs.Term.Innermost
import TermReduction.Proofs.Term.Meaning
import TermReduction.Proofs.Term.Reading
import TermReduction.Proofs.Term.RoundTrip
import TermReduction.Proofs.Term.Scanning
import TermReduction.Proofs.Term.Simplification
import TermReduction.Proofs.Term.Stack
import TermReduction.Proofs.Term.Substitution
import TermReduction.Proofs.Term.Text
import TermReduction.Proofs.Term.WellFormed
import TermReduction.Proofs.Text.Pattern
import TermReduction.Proofs.Token
import TermReduction.Proofs.Traversal
import TermReduction.Proofs.Truncation
import TermReduction.Reduction.Basic
import TermReduction.Reduction.History
import TermReduction.Reduction.Step
import TermReduction.Request
import TermReduction.Rounding
import TermReduction.Term.Basic
import TermReduction.Term.Descent
import TermReduction.Term.Document
import TermReduction.Term.Evaluation
import TermReduction.Term.Reading
import TermReduction.Term.Respelling
import TermReduction.Term.Stack
import TermReduction.Term.Text
import TermReduction.Text.Letter
import TermReduction.Text.Pattern
import TermReduction.Token
