import PrefixLogic.Main
import PrefixLogic.Proofs.Binary64.Nearest
import PrefixLogic.Proofs.Command.Arguments
import PrefixLogic.Proofs.Command.Run
import PrefixLogic.Proofs.Environment.Edit
import PrefixLogic.Proofs.Environment.Listing
import PrefixLogic.Proofs.Formula.Classical
import PrefixLogic.Proofs.Formula.Coupling
import PrefixLogic.Proofs.Formula.Dependence
import PrefixLogic.Proofs.Formula.Edits
import PrefixLogic.Proofs.Formula.Equality
import PrefixLogic.Proofs.Formula.Extension
import PrefixLogic.Proofs.Formula.Fault
import PrefixLogic.Proofs.Formula.FirstFault
import PrefixLogic.Proofs.Formula.Frame
import PrefixLogic.Proofs.Formula.Independence
import PrefixLogic.Proofs.Formula.Laws
import PrefixLogic.Proofs.Formula.Notation
import PrefixLogic.Proofs.Formula.Numeral
import PrefixLogic.Proofs.Formula.Outcome
import PrefixLogic.Proofs.Formula.Printed
import PrefixLogic.Proofs.Formula.Reading
import PrefixLogic.Proofs.Formula.Replacement
import PrefixLogic.Proofs.Formula.Sequence
import PrefixLogic.Proofs.Formula.Substitution
import PrefixLogic.Proofs.Formula.Visits
import PrefixLogic.Proofs.Formula.Written
import PrefixLogic.Proofs.Line.Interpretation
import PrefixLogic.Proofs.Line.Names
import PrefixLogic.Proofs.Line.ReadBack
import PrefixLogic.Proofs.Line.Trimmed
import PrefixLogic.Proofs.Line.Trimming
import PrefixLogic.Proofs.Line.View
import PrefixLogic.Proofs.Line.WellFormed
import PrefixLogic.Proofs.Log
import PrefixLogic.Proofs.Nesting
import PrefixLogic.Proofs.Output
import PrefixLogic.Proofs.Script.Layout
import PrefixLogic.Proofs.Script.Trace
import PrefixLogic.Proofs.Script.Transcript
import PrefixLogic.Proofs.Session.Idle
import PrefixLogic.Proofs.Session.Turns
import PrefixLogic.Proofs.Text.ByteOrder
import PrefixLogic.Proofs.Text.Deletion
import PrefixLogic.Proofs.Text.Lines
import PrefixLogic.Proofs.Text.Trimming
import PrefixLogic.Proofs.Token.Locality
import PrefixLogic.Proofs.Token.Longest
import PrefixLogic.Proofs.Token.Name
import PrefixLogic.Proofs.Token.Remaining
import PrefixLogic.Proofs.Token.Respacing
import PrefixLogic.Proofs.Token.Space
import PrefixLogic.Proofs.Token.Tiling
import PrefixLogic.Proofs.Tree.Expression
import PrefixLogic.Proofs.Tree.Failure
import PrefixLogic.Proofs.Tree.Form
import PrefixLogic.Proofs.Tree.Group
import PrefixLogic.Proofs.Tree.Items
import PrefixLogic.Proofs.Tree.Paired
import PrefixLogic.Proofs.Tree.Printed
import PrefixLogic.Proofs.Tree.Refusal
import PrefixLogic.Proofs.Tree.Spelling
import PrefixLogic.Proofs.Tree.Steps
import PrefixLogic.Proofs.Tree.Verdict
import PrefixLogic.Proofs.Tree.WellFormed
