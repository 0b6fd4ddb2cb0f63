import MethodLift.Command.Run

/-!
# The program

Runs the command that is given as arguments on the files of the machine, prints what it has to say,
and ends with its exit code.
-/

namespace MethodLift.Machine

/-- An error of the machine as one of a path. -/
def diskError : IO.Error → DiskError
  | .noFileOrDirectory .. => .notFound
  | .inappropriateType _ 21 _ => .isDirectory
  | .inappropriateType .. => .notDirectory
  | e => .other (toString e)

/-- What an action gives, or why it fails. -/
def attempt {α : Type} (action : IO α) : IO (Except DiskError α) := do
  match ← action.toBaseIO with
  | .ok a => return .ok a
  | .error e => return .error (diskError e)

/-- The text of a file. -/
def read (path : String) : IO (Except DiskError String) := do
  match ← attempt (IO.FS.readBinFile path) with
  | .error e => return .error e
  | .ok bytes =>
    match String.fromUTF8? bytes with
    | some text => return .ok text
    | none => return .error .notText

/-- Replaces a file by a new one beside it, so that the file never is half written. -/
def replace (path text : String) : IO Unit := do
  let fresh := path ++ ".new"
  IO.FS.writeFile fresh text
  IO.FS.rename fresh path

/-- The files at or below a path, by their paths from `below` on. -/
partial def walk (skip : String → Bool) (path below : String) : IO (List String) := do
  let real ← IO.FS.realPath path
  if !(← real.pathExists) then return []
  if !(← real.isDir) then return [below]
  let mut files : List String := []
  for entry in ← real.readDir do
    let next := joinPath below entry.fileName
    let next := if below.isEmpty then entry.fileName else next
    let isDirectory ← entry.path.isDir
    if !(isDirectory && skip entry.fileName) then
      files := files ++ (← walk skip entry.path.toString next)
  return files

/-- The machine as a host. -/
def host : Host IO where
  resolve path := attempt do
    let real ← IO.FS.realPath path
    return real.toString
  isFile path := do
    match ← attempt (IO.FS.realPath path) with
    | .ok real => return (← real.pathExists) && !(← real.isDir)
    | .error _ => return false
  read := read
  walk skip path := do
    match ← attempt (walk skip path "") with
    | .ok files => return files.mergeSort
    | .error _ => return []
  write path text := attempt (replace path text)

end MethodLift.Machine

/-- Runs the program. -/
def main (arguments : List String) : IO UInt32 := do
  let outcome ← MethodLift.Command.runArguments MethodLift.Machine.host arguments
  IO.print outcome.stdout
  IO.eprint outcome.stderr
  return outcome.exitCode.toUInt32
