import MethodLift.Scope.Names

/-!
# Members

Where a module gives some object a member of a name: a class that binds the name in its body, and an
assignment to an attribute of that name.
-/

namespace MethodLift.Scope

open MethodLift.Syntax

/-- The name of a class that binds a member in its body, unless it directly contains the method. -/
def classMember? (name : String) (method? : Option Stmt) (s : Stmt) : Option Span :=
  match s with
  | .classDef d =>
    if method?.any fun method => d.body.any (·.serial == method.serial) then none
    else if bindsName s name then some d.name.span
    else none
  | _ => none

/-- The name of an attribute that is assigned to. -/
def assignedMember? (name : String) : Expr → Option Span
  | .attr _ _ ident .store => if ident.name == name then some ident.span else none
  | _ => none

/-- Where a module binds members of a name, in reading order.  The class that directly contains the
given method does not count; assignments to attributes in it do. -/
def memberBindings (m : Module) (name : String) (method? : Option Stmt) : List Span :=
  let classes := m.stmts.filterMap (classMember? name method?)
  let attributes := m.exprs.filterMap (assignedMember? name)
  (classes ++ attributes).mergeSort Span.notAfter

end MethodLift.Scope
