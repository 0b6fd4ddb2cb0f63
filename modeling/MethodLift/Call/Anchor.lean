import MethodLift.Call.Site
import MethodLift.Text.Line

/-!
# Where a receiver can be evaluated ahead

A receiver that is needed more than once is kept in a temporary, which is assigned on a line of its
own before the statement that contains the call.  That is right only if the statement evaluates the
receiver exactly once and before anything else that matters, and if a line can be put before it.
What stands in the way is an obstacle.
-/

namespace MethodLift

open MethodLift.Syntax

/-- What makes it impossible to change a call. -/
inductive CallObstacle
  | throughClass
  | throughSuper
  | inLambda
  | inComprehension
  | inShortCircuit
  | inConditional
  | inWhileTest
  | inElifTest
  | inExceptType
  | inClassBody
  | inMidLine
  | outsideStatement
deriving DecidableEq, Repr, Inhabited

namespace CallObstacle

/-- The wording of an obstacle. -/
def reason : CallObstacle → String
  | throughClass => "method invoked through its class"
  | throughSuper => "method invoked through `super()`"
  | inLambda => "call inside a lambda"
  | inComprehension => "call inside a comprehension"
  | inShortCircuit => "call in a short-circuit operand"
  | inConditional => "call in a conditional expression branch"
  | inWhileTest => "call in a `while` condition"
  | inElifTest => "call in an `elif` condition"
  | inExceptType => "call in an `except` clause"
  | inClassBody => "call in a class body"
  | inMidLine => "statement does not start its own line"
  | outsideStatement => "call outside any statement"

end CallObstacle

namespace CallSite

/-- What in an expression keeps one of its children from being evaluated ahead: that the child may
run later, never, or more than once. -/
def obstacleInExpr? (parent child : Expr) : Option CallObstacle :=
  match parent with
  | .lambda .. => some .inLambda
  | .comprehension _ _ _ _ generators =>
    if generators.head?.any (·.iter.serial == child.serial) then none else some .inComprehension
  | .boolean _ _ values =>
    if values.head?.any (·.serial == child.serial) then none else some .inShortCircuit
  | .conditional _ test _ _ => if test.serial == child.serial then none else some .inConditional
  | _ => none

/-- What in a statement keeps its expressions from being evaluated ahead. -/
def obstacleInStmt? : Stmt → Option CallObstacle
  | .whileLoop .. => some .inWhileTest
  | .ifElse _ true .. => some .inElifTest
  | .tryBlock .. => some .inExceptType
  | _ => none

/-- Whether a statement runs in the body of a class and in no function in it. -/
def isInClassBody (m : Module) (s : Stmt) : Bool :=
  ((m.stmtAncestors s.serial).find? fun a => a.asFunction.isSome || a.asClass.isSome).any
    (·.asClass.isSome)

/-- The statement before which the receiver of a call can be evaluated. -/
def anchor (m : Module) (text : List Char) (call : Expr) : Except CallObstacle Stmt :=
  let around := m.exprAncestors call.serial
  match ((call :: around).zip around).findSome? fun (child, parent) =>
    obstacleInExpr? parent child with
  | some obstacle => .error obstacle
  | none =>
    match m.enclosingStmt? call.serial with
    | none => .error .outsideStatement
    | some s =>
      match obstacleInStmt? s with
      | some obstacle => .error obstacle
      | none =>
        if isInClassBody m s then .error .inClassBody
        else if Text.startsLine text s.span.start then .ok s
        else .error .inMidLine

end CallSite

end MethodLift
