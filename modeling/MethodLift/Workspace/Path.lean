import MethodLift.Syntax.Identifier

/-!
# Paths and the modules they hold

A path is read by its components: neither repeated slashes, nor one at the end, nor components `.`
matter, while `..` stays as it is.  A file is a module if its path below a source root spells out a
dotted name: directories and a file `name.py`, or directories and the file `__init__.py`, which is
the module of its directory.
-/

namespace MethodLift

open MethodLift.Syntax

/-- A path by its components. -/
structure Path where
  isAbsolute : Bool
  /-- The components, neither empty nor `.`. -/
  parts : List String
deriving DecidableEq, Repr, Inhabited

namespace Path

/-- What stands between the slashes of a text. -/
def split : List Char → List (List Char)
  | [] => [[]]
  | c :: cs =>
    if c == '/' then [] :: split cs
    else match split cs with
      | part :: parts => (c :: part) :: parts
      | [] => [[c]]

/-- Whether a component says where to go. -/
def isStep (part : String) : Bool := part != "" && part != "."

/-- The path that a text spells. -/
def ofString (text : String) : Path :=
  ⟨text.toList.head? == some '/', ((split text.toList).map String.ofList).filter isStep⟩

/-- Whether a text is a way to write the path `.`. -/
def isHere (text : String) : Bool :=
  text.toList.head? == some '.' && (ofString text).parts.isEmpty

/-- The components of a path below a directory; none if it is not below it. -/
def partsBelow? (root path : Path) : Option (List String) :=
  if root.isAbsolute == path.isAbsolute && root.parts.isPrefixOf path.parts then
    some (path.parts.drop root.parts.length)
  else none

/-! ## Modules -/

/-- The ending of the files that are modules, from the back. -/
def endingFromBack : List Char := ['y', 'p', '.']

/-- The name of a file without its ending `.py`; none if it has another one, or nothing before
it. -/
def moduleStem? (fileName : String) : Option String :=
  let fromBack := fileName.toList.reverse
  if endingFromBack.isPrefixOf fromBack && fromBack.length > endingFromBack.length then
    some (String.ofList (fromBack.drop endingFromBack.length).reverse)
  else none

/-- Whether a component can be a part of a dotted name. -/
def isModulePart (part : String) : Bool := isIdentifier part && !isKeyword part

/-- The file that holds the module of its directory. -/
def packageStem : String := "__init__"

/-- The parts of the dotted name of the module at a path below a source root. -/
def moduleParts? (root path : Path) : Option (List String) := do
  let parts ← partsBelow? root path
  let fileName ← parts.getLast?
  let stem ← moduleStem? fileName
  let name := parts.dropLast ++ (if stem == packageStem then [] else [stem])
  if name.isEmpty || !name.all isModulePart then none else some name

/-- A dotted name. -/
def dotted (parts : List String) : String := ".".intercalate parts

/-- Whether one dotted name is taken rather than another: the one with fewer parts, of two with
equally many the smaller one. -/
def isPreferred (a b : List String) : Bool :=
  a.length < b.length || (a.length == b.length && dotted a < dotted b)

/-- The name that is taken of several, the first of equal ones. -/
def preferred? : List (List String) → Option (List String)
  | [] => none
  | name :: names =>
    match preferred? names with
    | some other => if isPreferred other name then some other else some name
    | none => some name

/-- The dotted name of the module at a path, below the source root that gives the shortest one. -/
def moduleName? (roots : List Path) (path : Path) : Option String :=
  (preferred? (roots.filterMap (moduleParts? · path))).map dotted

end Path

end MethodLift
