import MethodLift.Syntax.Module

/-!
# Call sites

A call site is a call that may run the method: one whose callee is an attribute of the method's
name.  What the attribute is taken from, the receiver, is the instance that the method runs on.
Nothing is known about types, so every such call counts, whatever its receiver is.
-/

namespace MethodLift

open MethodLift.Syntax

/-- A call in a file that may run the method. -/
structure CallSite where
  file : String
  mark : Mark
  func : Expr
  args : List (Arg Expr)
  /-- What the method is called on; `none` for a call of a bare name. -/
  receiver : Option Expr
deriving Inhabited

namespace CallSite

/-- Where the whole call stands. -/
def span (s : CallSite) : Span := s.mark.span

/-- The call site that an expression is, for calls of a member of the given name. -/
def ofExpr? (file member : String) : Expr → Option CallSite
  | .call mark (.attr m value name ctx) args =>
    if name.name == member then some ⟨file, mark, .attr m value name ctx, args, some value⟩
    else none
  | _ => none

/-- The call sites of a file in reading order. -/
def ofModule (file member : String) (m : Module) : List CallSite :=
  (m.exprs.filterMap (ofExpr? file member)).mergeSort fun a b => a.span.notAfter b.span

end CallSite

end MethodLift
