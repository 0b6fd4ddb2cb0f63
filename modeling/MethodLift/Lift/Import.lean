import MethodLift.LiftError
import MethodLift.Scope.Names

/-!
# Importing the new function

A file that calls the new function and does not define it has to import it.  A name that a
`from … import` of the same module can take up is added there; else a line is added behind the
imports at the head of the file, the docstring, or the comments there.
-/

namespace MethodLift

open MethodLift.Syntax

namespace Import

/-- The names that a statement imports from a module of a dotted path, if it imports any so. -/
def namesFrom? (path : String) : Stmt → Option (List Alias)
  | .importFrom _ (some p) 0 names false => if p == path then some names else none
  | _ => none

/-- Whether a name is imported as itself. -/
def isPlain (symbol : String) (a : Alias) : Bool := a.name == symbol && a.boundName == symbol

/-- The last name of the first list that has one. -/
def lastOfFirst? (lists : List (List Alias)) : Option Alias := lists.findSome? List.getLast?

/-- Whether a statement is an import. -/
def isImport : Stmt → Bool
  | .importModules .. | .importFrom .. => true
  | _ => false

/-- The last statement of the head of a module: its docstring and the imports behind it. -/
def lastOfHead? (m : Module) : Option Stmt :=
  let docstring := m.docstring?
  let rest := if docstring.isSome then m.body.drop 1 else m.body
  ((rest.takeWhile isImport).getLast?).or docstring

/-- Where the comment lines that start at an offset end. -/
def skipComments (text : List Char) (offset : Nat) : Nat → Nat
  | 0 => offset
  | lines + 1 =>
    if (Text.dropBytes text offset).head? == some '#' then
      skipComments text (Text.lineEnd text offset) lines
    else offset

/-- Where a new import goes. -/
def lineOffset (m : Module) (text : List Char) : Nat :=
  match lastOfHead? m with
  | some s => Text.lineEnd text s.span.stop
  | none => skipComments text 0 (text.length + 1)

/-- The text of a new import at an offset. -/
def newLine (text : List Char) (offset : Nat) (path symbol : String) : String :=
  let lineBreak := String.ofList (Text.lineBreak text)
  let line := "from " ++ path ++ " import " ++ symbol ++ lineBreak
  if offset == Text.width text && !text.isEmpty && text.getLast? != some '\n' then
    lineBreak ++ line
  else line

/-- The edit of a file that makes a name of a module available in it; none if it is available. -/
def ensure (m : Module) (text file path symbol : String) : Except LiftError (Option Edit) :=
  let lists := m.body.filterMap (namesFrom? path)
  if lists.any (·.any (isPlain symbol)) then .ok none
  else if Scope.moduleBindsName m symbol then .error (.nameConflict symbol file 0)
  else match lastOfFirst? lists with
    | some a => .ok (some (.insert file a.span.stop (", " ++ symbol)))
    | none =>
      let source := text.toList
      let offset := lineOffset m source
      .ok (some (.insert file offset (newLine source offset path symbol)))

end Import

/-- The imports that are ensured so far, ordered by file: each file gets one edit at most. -/
abbrev Imports := List (String × Option Edit)

namespace Imports

/-- Files with what they get, in the order of the files. -/
def insertFile (file : String) (edit : Option Edit) : Imports → Imports
  | [] => [(file, edit)]
  | (f, e) :: rest =>
    if file < f then (file, edit) :: (f, e) :: rest else (f, e) :: insertFile file edit rest

/-- Ensures an import in a file, unless one was ensured there before. -/
def ensure (imports : Imports) (m : Module) (text file path symbol : String) :
    Except LiftError Imports :=
  match imports.lookup file with
  | some _ => .ok imports
  | none => do return insertFile file (← Import.ensure m text file path symbol) imports

/-- The edit of a file. -/
def edit? (imports : Imports) (file : String) : Option Edit := (imports.lookup file).join

/-- All edits in the order of their files. -/
def edits (imports : Imports) : List Edit := imports.filterMap (·.2)

end Imports

end MethodLift
