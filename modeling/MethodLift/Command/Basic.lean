/-!
# Commands

What can be asked for on the command line: to lift a method, or to list the problems of a file.
-/

namespace MethodLift

/-- The arguments of the command that lifts a method. -/
structure LiftArguments where
  /-- The file of the class. -/
  file : String
  className : String
  method : String
  root : String
  /-- A settings file other than that of the workspace. -/
  settings : Option String
  /-- Whether files are changed. -/
  apply : Bool
  json : Bool
deriving DecidableEq, Repr, Inhabited

inductive Command
  | lift (arguments : LiftArguments)
  | problems (file : String) (json : Bool)
deriving DecidableEq, Repr, Inhabited

/-- What a command prints, and its exit code. -/
structure Outcome where
  exitCode : Nat
  stdout : String
  stderr : String
deriving DecidableEq, Repr, Inhabited

namespace Command

/-- Arguments by what they are: options with their values, flags, and what is neither. -/
structure Parts where
  values : List (String × String)
  flags : List String
  others : List String
deriving DecidableEq, Repr, Inhabited

/-- The options that have values. -/
def valueOptions : List String := ["--class", "--method", "--root", "--config"]

/-- The options that have none. -/
def flagOptions : List String := ["--apply", "--json"]

/-- The part of an argument before an equals sign, and the part behind it if there is one. -/
def splitOption (argument : String) : String × Option String :=
  let name := argument.toList.takeWhile (· != '=')
  let rest := argument.toList.drop name.length
  (String.ofList name, if rest.isEmpty then none else some (String.ofList (rest.drop 1)))

/-- Sorts arguments; none if an option is unknown or lacks its value. -/
def sortArguments : List String → Option Parts
  | [] => some ⟨[], [], []⟩
  | argument :: rest =>
    match splitOption argument with
    | (name, some value) =>
      if valueOptions.contains name then
        (sortArguments rest).map fun p => { p with values := (name, value) :: p.values }
      else other argument (sortArguments rest)
    | (name, none) =>
      if flagOptions.contains name then
        (sortArguments rest).map fun p => { p with flags := name :: p.flags }
      else if valueOptions.contains name then
        match rest with
        | value :: rest =>
          (sortArguments rest).map fun p => { p with values := (name, value) :: p.values }
        | [] => none
      else other argument (sortArguments rest)
where
  /-- Takes an argument that is no option. -/
  other (argument : String) (parts : Option Parts) : Option Parts :=
    if argument.toList.head? == some '-' then none
    else parts.map fun p => { p with others := argument :: p.others }

/-- The value of an option. -/
def Parts.value? (p : Parts) (name : String) : Option String := p.values.lookup name

/-- The command that arguments spell. -/
def ofArguments? : List String → Option Command
  | "make-top-level" :: rest => do
    let p ← sortArguments rest
    let [file] := p.others | none
    return .lift {
      file
      className := ← p.value? "--class"
      method := ← p.value? "--method"
      root := (p.value? "--root").getD "."
      settings := p.value? "--config"
      apply := p.flags.contains "--apply"
      json := p.flags.contains "--json" }
  | "parse" :: rest => do
    let p ← sortArguments rest
    let [file] := p.others | none
    if p.values.isEmpty && !p.flags.contains "--apply" then
      return .problems file (p.flags.contains "--json")
    else none
  | _ => none

/-- What is said about arguments that spell no command. -/
def usage : String :=
  "usage: hoist make-top-level FILE --class CLASS --method METHOD [--root DIR] [--config FILE] "
    ++ "[--apply] [--json]\n       hoist parse FILE [--json]\n"

end Command

end MethodLift
