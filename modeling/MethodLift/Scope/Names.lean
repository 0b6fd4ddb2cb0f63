import MethodLift.Syntax.Module

/-!
# The names that a scope binds

What the statements of a body bind in the scope that they run in: by assignment, by importing, by
defining functions and classes, in `for`, `with` and `except`, and by assignment expressions.  The
bodies of functions, lambdas and classes are scopes of their own and bind nothing around them; a
comprehension is one too, except that an assignment expression inside it binds in the scope around.

Names that are declared `global` or `nonlocal` are listed apart, since what they name belongs to
another scope.
-/

namespace MethodLift.Scope

open MethodLift.Syntax

/-- What a body binds and declares. -/
structure Names where
  bound : List String
  globals : List String
  nonlocals : List String
deriving Repr, Inhabited

namespace Names

/-- No names. -/
def none : Names := ⟨[], [], []⟩

/-- Names that are bound. -/
def ofBound (names : List String) : Names := ⟨names, [], []⟩

/-- The names of two parts together. -/
def append (a b : Names) : Names :=
  ⟨a.bound ++ b.bound, a.globals ++ b.globals, a.nonlocals ++ b.nonlocals⟩

/-- The names of several parts together. -/
def flatten (parts : List Names) : Names := parts.foldr append none

/-- Whether a name is bound here and not only declared to belong elsewhere. -/
def binds (names : Names) (name : String) : Bool :=
  names.bound.contains name && !names.globals.contains name && !names.nonlocals.contains name

end Names

/-- The names that an expression binds in the scope around it.  Inside a comprehension only
assignment expressions do. -/
def boundByExpr (inComprehension : Bool) (e : Expr) : List String :=
  match e with
  | .name _ id ctx => if !inComprehension && ctx != .load then [id] else []
  | .named _ target value => target.asName.toList ++ boundByExpr inComprehension value
  | .lambda .. => []
  | .comprehension m kind element value generators =>
    (Expr.comprehension m kind element value generators).children.attach.flatMap fun c =>
      boundByExpr true c.1
  | other => other.children.attach.flatMap fun c => boundByExpr inComprehension c.1
termination_by sizeOf e
decreasing_by
  · simp only [Expr.named.sizeOf_spec]
    omega
  · exact Expr.sizeOf_lt_of_mem_children c.2
  · exact Expr.sizeOf_lt_of_mem_children c.2

/-- What a statement binds besides the names in its expressions and in its bodies. -/
def ownNames : Stmt → Names
  | .importModules _ names | .importFrom _ _ _ names _ =>
    .ofBound (names.map (·.boundName))
  | .global _ names => ⟨[], names.map (·.name), []⟩
  | .nonlocal _ names => ⟨[], [], names.map (·.name)⟩
  | .tryBlock _ _ handlers _ _ =>
    .ofBound (handlers.flatMap fun h => (h.name.map (·.name)).toList)
  | _ => .none

/-- What a statement binds and declares in the scope that it runs in. -/
def namesOfStmt (s : Stmt) : Names :=
  match s with
  | .functionDef d => .ofBound [d.name.name]
  | .classDef d => .ofBound [d.name.name]
  | other =>
    ((ownNames other).append (.ofBound (other.exprs.flatMap (boundByExpr false)))).append
      (.flatten (other.children.attach.map fun c => namesOfStmt c.1))
termination_by sizeOf s
decreasing_by exact Stmt.sizeOf_lt_of_mem_children c.2

/-- What the statements of a body bind and declare. -/
def namesOfBody (body : List Stmt) : Names := .flatten (body.map namesOfStmt)

/-- What the scope of a function or class binds and declares; other statements have no scope. -/
def namesOfScope? : Stmt → Option Names
  | .functionDef d =>
    some ((Names.ofBound (d.params.names.map (·.name))).append (namesOfBody d.body))
  | .classDef d => some (namesOfBody d.body)
  | _ => none

/-- Whether a function or class binds a name in its own scope. -/
def bindsName (s : Stmt) (name : String) : Bool :=
  match namesOfScope? s with
  | some names => names.binds name
  | none => false

/-- Whether a name is bound by the statements of a module's body. -/
def moduleBindsName (m : Module) (name : String) : Bool :=
  (namesOfBody m.body).bound.contains name

end MethodLift.Scope
