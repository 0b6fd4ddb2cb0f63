import MethodLift.LiftError
import MethodLift.Scope.Names

/-!
# The method to lift

The method is asked for by the names of its class and its own.  Of several classes of one name the
first one counts, nested ones included; of several methods the first one in the body of the class.
It has to be an ordinary method: one that is bound to an instance, whose name is free in the module.
-/

namespace MethodLift

open MethodLift.Syntax

/-- A method in its class. -/
structure LiftTarget where
  class_ : ClassDef Stmt
  method : FunctionDef Stmt
deriving Inhabited

namespace LiftTarget

/-- The method as a statement. -/
def stmt (t : LiftTarget) : Stmt := .functionDef t.method

/-- The first class of a name. -/
def class? (m : Module) (name : String) : Option (ClassDef Stmt) :=
  m.reachableStmts.findSome? fun s => s.asClass.filter (·.name.name == name)

/-- The first method of a name in the body of a class. -/
def method? (c : ClassDef Stmt) (name : String) : Option (FunctionDef Stmt) :=
  c.body.findSome? fun s => s.asFunction.filter (·.name.name == name)

/-- The method that a class name and a method name ask for. -/
def find (m : Module) (file className method : String) : Except LiftError LiftTarget :=
  match class? m className with
  | none => .error (.classNotFound file className)
  | some c =>
    match method? c method with
    | none => .error (.methodNotFound className method)
    | some d => .ok ⟨c, d⟩

/-! ## Ordinary methods -/

/-- The methods that make instances. -/
def constructors : List String := ["__init__", "__new__"]

/-- The decorators that change how a method is bound. -/
def bindingDecorators : List String :=
  ["staticmethod", "classmethod", "property", "cached_property", "abstractmethod", "setter",
    "getter", "deleter"]

/-- The last name of a name or an attribute. -/
def lastName? : Expr → Option String
  | .name _ id _ => some id
  | .attr _ _ name _ => some name.name
  | _ => none

/-- The name that a decorator goes by, whether it is called or not. -/
def decoratorName? : Expr → Option String
  | .call _ func _ => lastName? func
  | e => lastName? e

/-- The first decorator that changes how a method is bound. -/
def bindingDecorator? (d : FunctionDef Stmt) : Option Expr :=
  d.decorators.find? fun e => (decoratorName? e).any bindingDecorators.contains

/-- Whether the first parameter is one that an instance is passed to. -/
def hasInstance (d : FunctionDef Stmt) : Bool :=
  d.params.params.head?.any fun p => p.kind == .regular && p.name.isSome

/-- Refuses a method that is no ordinary one, or whose name is bound in the module already. -/
def refuse (m : Module) (text file : String) (d : FunctionDef Stmt) : Except LiftError Unit :=
  let name := d.name.name
  if constructors.contains name then .error (.constructor name)
  else match bindingDecorator? d with
    | some e => .error (.unsupportedDecorator ("@" ++ Text.sliceString text e.span))
    | none =>
      if !hasInstance d then .error (.missingInstanceParameter name)
      else if Scope.moduleBindsName m name then .error (.nameConflict name file 0)
      else .ok ()

end LiftTarget

end MethodLift
