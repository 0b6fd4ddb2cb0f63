import MethodLift.Call.Site
import MethodLift.Scope.Member
import MethodLift.Snapshot
import MethodLift.Workspace.Path

/-!
# Workspaces

The files of a program with their trees, and the directories that its modules are imported from.
Calls and members are looked for in all of them.
-/

namespace MethodLift

open MethodLift.Syntax

/-- A snapshot of files in which those that are modules have been read. -/
structure Workspace where
  snapshot : Snapshot
  /-- What the files with the ending `.py` were read as, in the order of their paths. -/
  parsed : List (String × Parsed)
  sourceRoots : List Path
deriving Inhabited

/-- Where some object gets a member. -/
structure MemberBinding where
  file : String
  span : Span
deriving DecidableEq, Repr, Inhabited

namespace Workspace

/-- Whether a file is read. -/
def isSource (path : String) : Bool := Path.endingFromBack.isPrefixOf path.toList.reverse

/-- The workspace of a snapshot.  Without source roots, modules are imported from the top. -/
def ofSnapshot (snapshot : Snapshot) (roots : List String) : Workspace where
  snapshot := snapshot
  parsed := (snapshot.files.filter fun (path, _) => isSource path).map fun (path, text) =>
    (path, parse text)
  sourceRoots := (if roots.isEmpty then [""] else roots).map Path.ofString

/-- What a file was read as. -/
def parsed? (w : Workspace) (file : String) : Option Parsed := w.parsed.lookup file

/-- The dotted name to import a file by. -/
def moduleName? (w : Workspace) (file : String) : Option String :=
  Path.moduleName? w.sourceRoots (Path.ofString file)

/-- The calls of a member of the given name, in the order of files and offsets. -/
def callSites (w : Workspace) (member : String) : List CallSite :=
  w.parsed.flatMap fun (file, p) => CallSite.ofModule file member p.module

/-- Where members of a name are bound, apart from the class that directly contains the given method
of the given file. -/
def memberBindings (w : Workspace) (member home : String) (method : Stmt) : List MemberBinding :=
  w.parsed.flatMap fun (file, p) =>
    (Scope.memberBindings p.module member (if file == home then some method else none)).map
      (⟨file, ·⟩)

end Workspace

end MethodLift
