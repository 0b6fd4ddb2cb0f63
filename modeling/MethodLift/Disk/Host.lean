/-!
# Files outside

What the program asks of the files around it, as operations that a host provides.  The host may be a
real system of files or a tree that is known as a whole, so that what the program does with files
can be run, and spoken about, without any.
-/

namespace MethodLift

/-- Why a path does not lead to a text. -/
inductive DiskError
  | notFound
  /-- Something on the way is a file. -/
  | notDirectory
  | isDirectory
  /-- The bytes of the file are not UTF-8. -/
  | notText
  | other (message : String)
deriving DecidableEq, Repr, Inhabited

/-- The wording of an error. -/
def DiskError.message : DiskError → String
  | notFound => "No such file or directory (os error 2)"
  | notDirectory => "Not a directory (os error 20)"
  | isDirectory => "Is a directory (os error 21)"
  | notText => "stream did not contain valid UTF-8"
  | other message => message

/-- The operations on files. -/
structure Host (m : Type → Type) where
  /-- The absolute path of what a path leads to. -/
  resolve : String → m (Except DiskError String)
  /-- Whether a path leads to a file. -/
  isFile : String → m Bool
  /-- The text of a file. -/
  read : String → m (Except DiskError String)
  /-- The files at or below a path, by their paths from there, without the directories below it
  whose names are to be skipped; none if the path leads nowhere. -/
  walk : (String → Bool) → String → m (List String)
  /-- Replaces the text of a file. -/
  write : String → String → m (Except DiskError Unit)

/-- A path from a directory on, behind the path of the directory. -/
def joinPath (directory below : String) : String :=
  if below.isEmpty || directory.isEmpty then directory ++ below
  else if directory.toList.getLast? == some '/' then directory ++ below
  else directory ++ "/" ++ below

end MethodLift
