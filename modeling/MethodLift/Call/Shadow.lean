import MethodLift.Call.Site
import MethodLift.Scope.Names

/-!
# Shadowed names

The new function is called by its bare name, and the module's body binds that name.  A call is
shadowed if a scope between it and the module binds the name too: a lambda, a comprehension, a
function, or the class whose body the call runs in.
-/

namespace MethodLift.CallSite

open MethodLift.Syntax

/-- Whether an expression is a scope that binds a name. -/
def bindsInside (name : String) : Expr → Bool
  | .lambda _ params _ => params.names.any (·.name == name)
  | .comprehension _ _ _ _ generators =>
    generators.any fun g => g.target.descendants.any (·.asName == some name)
  | _ => false

/-- Whether one of the statements around a call, the innermost first, is a scope that binds a name
and is visible there.  A class is visible in its body only, not in the functions there. -/
def boundAround (name : String) (inFunction : Bool) : List Stmt → Bool
  | [] => false
  | .functionDef d :: rest =>
    Scope.bindsName (.functionDef d) name || boundAround name true rest
  | .classDef d :: rest =>
    (!inFunction && Scope.bindsName (.classDef d) name) || boundAround name inFunction rest
  | _ :: rest => boundAround name inFunction rest

/-- Whether a bare name that stands in the place of a call, inside the statement `around`, is bound
by a scope other than the module's. -/
def isShadowed (m : Module) (callSerial : Nat) (around : Stmt) (name : String) : Bool :=
  (m.exprAncestors callSerial).any (bindsInside name)
    || boundAround name false (m.stmtAncestors around.serial)

end MethodLift.CallSite
