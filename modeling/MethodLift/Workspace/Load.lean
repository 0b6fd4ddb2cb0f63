import MethodLift.Disk.Host
import MethodLift.Workspace.Basic

/-!
# Reading a workspace

A workspace is read from a directory: all modules in it and in the directories below, apart from
hidden ones and those of compiled code.
-/

namespace MethodLift

/-- A file that cannot be read. -/
structure ReadError where
  path : String
  error : DiskError
deriving DecidableEq, Repr, Inhabited

/-- The wording of an error. -/
def ReadError.message (e : ReadError) : String :=
  "failed to read `" ++ e.path ++ "`: " ++ e.error.message

namespace Workspace

variable {m : Type → Type} [Monad m]

/-- Whether the files in a directory of this name are left out. -/
def isSkipped (directory : String) : Bool :=
  directory.toList.head? == some '.' || directory == "__pycache__"

/-- Whether a path is that of a module. -/
def isModuleFile (path : String) : Bool :=
  ((Path.ofString path).parts.getLast?.bind Path.moduleStem?).isSome

/-- Reads files of a directory one after the other. -/
def readFiles (host : Host m) (root : String) :
    List String → ExceptT ReadError m (List (String × String))
  | [] => return []
  | file :: files => do
    let path := joinPath root file
    match ← host.read path with
    | .ok text => return (file, text) :: (← readFiles host root files)
    | .error error => throw ⟨path, error⟩

/-- Reads the workspace in a directory. -/
def load (host : Host m) (root : String) (sourceRoots : List String) :
    ExceptT ReadError m Workspace := do
  let files ← host.walk isSkipped root
  let texts ← readFiles host root (files.filter fun file => isModuleFile (joinPath root file))
  return ofSnapshot (Snapshot.ofList texts) sourceRoots

end Workspace

end MethodLift
