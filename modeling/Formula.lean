import Formula.CommandLine.Run
import Formula.Conventions
import Formula.Main
import Formula.Proofs.Grammar
import Formula.Proofs.Polish.Postorder
import Formula.Proofs.Machine.Depth
import Formula.Proofs.Polish.Group
import Formula.Proofs.Decimal.Characters
import Formula.Proofs.Machine.Value
import Formula.Proofs.Token.Spelling
import Formula.Proofs.Expression.Meaning
import Formula.Proofs.Polish.Order
import Formula.Proofs.Machine.Substitution
import Formula.Proofs.Polish.Parentheses
import Formula.Proofs.Expression.Rendering
import Formula.Proofs.Machine.Parentheses
import Formula.Proofs.Polish.Faithful
import Formula.Proofs.Expression.Dependence
import Formula.Proofs.Decimal.Foreign
import Formula.Proofs.Expression.Construction
import Formula.Proofs.Text.Pieces
import Formula.Proofs.Machine.Excess
import Formula.Proofs.Machine.Failure
import Formula.Proofs.Decimal.Grammar
import Formula.Proofs.Decimal.Reading
import Formula.Proofs.Machine.Opposite
import Formula.Proofs.Traversal
import Formula.Proofs.Scope.Assignment
import Formula.Proofs.Scope.Dictionary
import Formula.Proofs.Samples.Shape
import Formula.Proofs.Table.Points
import Formula.Proofs.CommandLine.Collection
import Formula.Proofs.CommandLine.Output
import Formula.Proofs.Machine.Frame
import Formula.Proofs.Polish.Layers
import Formula.Proofs.Decimal.Rounding
import Formula.Proofs.Decimal.Layout
import Formula.Proofs.Decimal.ExactValue
import Formula.Proofs.Decimal.Finite
import Formula.Proofs.Decimal.General
