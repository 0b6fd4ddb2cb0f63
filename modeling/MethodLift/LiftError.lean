import MethodLift.Call.Anchor
import MethodLift.Edit.Basic
import MethodLift.Method.Safety

/-!
# Why a method is not lifted

Lifting a method out of its class fails if the request names something that is not there, or if the
workspace is broken.  It is refused if the program's behaviour could change.
-/

namespace MethodLift

/-- Why a method is not lifted out of its class. -/
inductive LiftError
  | safety (error : SafetyError)
  /-- The file is needed elsewhere and has no dotted path to import it by. -/
  | unresolvableImportPath (file : String)
  | fileNotFound (file : String)
  | parse (file message : String)
  | classNotFound (file className : String)
  | methodNotFound (className method : String)
  | constructor (method : String)
  | unsupportedDecorator (decorator : String)
  | missingInstanceParameter (method : String)
  /-- The function's name has another meaning where it would be bound or used. -/
  | nameConflict (name file : String) (offset : Nat)
  | unsupportedCallSite (file : String) (offset : Nat) (obstacle : CallObstacle)
  /-- Something else has a member of the method's name. -/
  | ambiguousMember (method file : String) (offset : Nat)
  | edit (error : EditError)
deriving DecidableEq, Repr, Inhabited

namespace LiftError

/-- The wording of an error. -/
def message : LiftError → String
  | safety error => error.message
  | unresolvableImportPath file => "no importable module path for `" ++ file ++ "`"
  | fileNotFound file => "file `" ++ file ++ "` not found"
  | parse file message => "failed to parse `" ++ file ++ "`: " ++ message
  | classNotFound file className => "class `" ++ className ++ "` not found in `" ++ file ++ "`"
  | methodNotFound className method =>
    "method `" ++ method ++ "` not found in class `" ++ className ++ "`"
  | constructor method => "constructors cannot be made top-level (`" ++ method ++ "`)"
  | unsupportedDecorator decorator =>
    "methods decorated with `" ++ decorator ++ "` are not supported"
  | missingInstanceParameter method => "method `" ++ method ++ "` has no instance parameter"
  | nameConflict name file offset =>
    "`" ++ name ++ "` is already bound in `" ++ file ++ "` (offset " ++ toString offset ++ ")"
  | unsupportedCallSite file offset obstacle =>
    "unsupported call site in `" ++ file ++ "` at offset " ++ toString offset ++ ": "
      ++ obstacle.reason
  | ambiguousMember method file offset =>
    "`" ++ method ++ "` is also a member bound in `" ++ file ++ "` (offset " ++ toString offset
      ++ "); its calls cannot be told apart"
  | edit error => error.message

/-- Whether the method was found and is refused because lifting it would not be safe. -/
def isRefusal : LiftError → Bool
  | safety _ | constructor _ | unsupportedDecorator _ | missingInstanceParameter _
  | nameConflict .. | unsupportedCallSite .. | ambiguousMember .. => true
  | unresolvableImportPath _ | fileNotFound _ | parse .. | classNotFound .. | methodNotFound ..
  | edit _ => false

end LiftError

/-- Takes an error of edits for an error of the whole. -/
def liftEdit {α : Type} : Except EditError α → Except LiftError α
  | .ok a => .ok a
  | .error e => .error (.edit e)

end MethodLift
