import MethodLift.Main
import MethodLift.Disk.Tree
import MethodLift.Proofs.Call.Binding
import MethodLift.Proofs.Call.Landing
import MethodLift.Proofs.Call.FreshTemporaries
import MethodLift.Proofs.Call.HoistedOnce
import MethodLift.Proofs.Call.HoistedInOrder
import MethodLift.Proofs.Lift.Commit
import MethodLift.Proofs.Report.Preview
import MethodLift.Proofs.Lift.Elimination
import MethodLift.Proofs.Lift.CallOrder
import MethodLift.Proofs.Lift.Uses
import MethodLift.Proofs.Syntax.Ranges
import MethodLift.Proofs.Syntax.Parents
import MethodLift.Proofs.Syntax.Parentheses
import MethodLift.Proofs.Syntax.Precedence
import MethodLift.Proofs.Syntax.Targets
import MethodLift.Proofs.Syntax.WrittenNames
import MethodLift.Proofs.Syntax.BracketLimit
import MethodLift.Proofs.Syntax.CarriageReturns
import MethodLift.Proofs.Syntax.Gaps
import MethodLift.Proofs.Syntax.Layout
import MethodLift.Proofs.Call.Neighbours
import MethodLift.Proofs.Call.TemporaryLines
import MethodLift.Proofs.Syntax.LineStarts
import MethodLift.Proofs.Lift.TemporaryLines
import MethodLift.Proofs.Method.Synthesis
import MethodLift.Proofs.Lift.Collisions
import MethodLift.Proofs.Lift.Imports
import MethodLift.Proofs.Edit.Conflicts
import MethodLift.Proofs.Scope.Collecting
import MethodLift.Proofs.Edit.Insertions
import MethodLift.Proofs.Edit.Splicing
import MethodLift.Proofs.Lift.ImportLine
import MethodLift.Proofs.Method.Dedent
import MethodLift.Proofs.Method.Layout
import MethodLift.Proofs.Syntax.EmptyLines
import MethodLift.Proofs.Syntax.FormattedStrings
