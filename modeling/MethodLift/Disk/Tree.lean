import MethodLift.Disk.Host
import MethodLift.Workspace.Path

/-!
# Files that are known as a whole

A tree of files in one directory, the home, in which the program runs.  Directories are there
because files are in them.
-/

namespace MethodLift

/-- The files below a directory. -/
structure FileTree where
  /-- The absolute path of the directory. -/
  home : String
  /-- The files by their components, with their texts; `none` where the bytes are no text. -/
  files : List (List String × Option String)
deriving DecidableEq, Repr, Inhabited

namespace FileTree

/-- What there is at some place. -/
inductive Node
  | file (content : Option String)
  | directory
deriving DecidableEq, Repr, Inhabited

/-- The files of a tree by their paths. -/
def ofList (home : String) (files : List (String × Option String)) : FileTree :=
  ⟨home, files.map fun (path, content) => ((Path.ofString path).parts, content)⟩

/-- What there is at a place of the tree. -/
def node? (t : FileTree) (place : List String) : Option Node :=
  match t.files.lookup place with
  | some content => some (.file content)
  | none =>
    if place.isEmpty || t.files.any fun (p, _) => place.isPrefixOf p then some .directory else none

/-- Follows the components of a path from a place on.  Every component is looked for in a
directory; an empty one and `.` stay there. -/
def follow (t : FileTree) (place : List String) : List String → Except DiskError (List String)
  | [] => .ok place
  | part :: parts =>
    match t.node? place with
    | none => .error .notFound
    | some (.file _) => .error .notDirectory
    | some .directory =>
      if part == "" || part == "." then follow t place parts
      else if part == ".." then
        if place.isEmpty then .error .notFound else follow t place.dropLast parts
      else follow t (place ++ [part]) parts

/-- The components of a path as it is spelled, from the home on. -/
def spelled? (t : FileTree) (path : String) : Option (List String) :=
  let split (cs : List Char) := (Path.split cs).map String.ofList
  if path.isEmpty then none
  else if path == t.home then some []
  else if (t.home ++ "/").toList.isPrefixOf path.toList then
    some (split (path.toList.drop (t.home.length + 1)))
  else if path.toList.head? == some '/' then none
  else some (split path.toList)

/-- The place that a path leads to, and what is there. -/
def find (t : FileTree) (path : String) : Except DiskError (List String × Node) :=
  match t.spelled? path with
  | none => .error .notFound
  | some parts => do
    let place ← t.follow [] parts
    match t.node? place with
    | some node => .ok (place, node)
    | none => .error .notFound

/-- The text of a file. -/
def read (t : FileTree) (path : String) : Except DiskError String :=
  match t.find path with
  | .error e => .error e
  | .ok (_, .directory) => .error .isDirectory
  | .ok (_, .file none) => .error .notText
  | .ok (_, .file (some text)) => .ok text

/-- The components of a file below a place, if no directory on the way there is to be skipped. -/
def below? (skip : String → Bool) (place file : List String) : Option (List String) :=
  let rest := file.drop place.length
  if place.isPrefixOf file && !rest.dropLast.any skip then some rest else none

/-- The files at or below a path. -/
def walk (t : FileTree) (skip : String → Bool) (path : String) : List String :=
  match t.find path with
  | .ok (place, _) =>
    (t.files.filterMap fun (file, _) => (below? skip place file).map ("/".intercalate ·)).mergeSort
  | .error _ => []

/-- The tree with another text of a file. -/
def write (t : FileTree) (path text : String) : Except DiskError FileTree := do
  let (place, node) ← t.find path
  match node with
  | .directory => .error .isDirectory
  | .file _ =>
    return { t with files := t.files.map fun (file, old) =>
      (file, if file == place then some text else old) }

/-- The tree as a host. -/
def host : Host (StateM FileTree) where
  resolve path := do
    let t ← get
    return (t.find path).map fun (place, _) => joinPath t.home ("/".intercalate place)
  isFile path := do
    match (← get).find path with
    | .ok (_, .file _) => return true
    | _ => return false
  read path := do return (← get).read path
  walk skip path := do return (← get).walk skip path
  write path text := do
    match (← get).write path text with
    | .ok t => set t; return .ok ()
    | .error e => return .error e

end FileTree

end MethodLift
