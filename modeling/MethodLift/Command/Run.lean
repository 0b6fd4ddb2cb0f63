import MethodLift.Command.Basic
import MethodLift.Lift.Plan
import MethodLift.Report.JsonText
import MethodLift.Settings.File
import MethodLift.Workspace.Load

/-!
# Running commands

A command prints its result and ends with code 0; with code 1 if it says that something is wrong
with the program it works on; and with code 2 if it cannot do its work.
-/

namespace MethodLift

open MethodLift.Syntax
open MethodLift.Report (ReportValue)

/-- Why a command cannot do its work: what failed, each followed by its cause. -/
structure Failure where
  causes : List String
deriving DecidableEq, Repr, Inhabited

/-- The wording of a failure. -/
def Failure.message (f : Failure) : String := ": ".intercalate f.causes

namespace Command

variable {m : Type → Type} [Monad m]

/-- Says of a failure what the work was for. -/
def during {ε α : Type} (what : String) (causes : ε → List String) (x : ExceptT ε m α) :
    ExceptT Failure m α := do
  match ← x.run with
  | .ok a => return a
  | .error e => throw ⟨what :: causes e⟩

/-- The same for work that needs no host. -/
def checking {ε α : Type} (what : String) (message : ε → String) (x : Except ε α) :
    ExceptT Failure m α :=
  match x with
  | .ok a => return a
  | .error e => throw ⟨[what, message e]⟩

/-! ## Reports -/

/-- A span in a report. -/
def spanReport (s : Span) : ReportValue :=
  .object [("start", .number s.start), ("end", .number s.stop)]

/-- The name of a shape in a report. -/
def shapeName : ReceiverShape → String
  | .dottedName => "PureChain"
  | .usedOnce => "SingleAttributeTarget"
  | .keptInTemporary => "MultiAttributeTarget"

/-- A call in a report. -/
def callReport (r : CallChange) : ReportValue :=
  .object [("file", .string r.file), ("range", spanReport r.span),
    ("shape", .optional (r.shape.map shapeName)), ("temporary", .optional r.temporary),
    ("arguments", .strings r.arguments)]

/-- The new function in a report. -/
def functionReport (f : NewFunction) : ReportValue :=
  .object [("name", .string f.name), ("text", .string f.text),
    ("parameters", .strings f.parameters)]

/-- A changed file in a report. -/
def fileReport (f : FilePreview) : ReportValue :=
  .object [("file", .string f.file), ("unified_diff", .string f.diff),
    ("edit_count", .number f.editCount)]

/-- The name of a style in a report. -/
def styleName : ArgumentStyle → String
  | .positional => "Positional"
  | .keyword => "Keyword"

/-- The report on a method that is lifted. -/
def liftReport (plan : LiftPlan) (preview : Preview) (applied : Bool) : ReportValue :=
  .object [("status", .string "ok"), ("function", functionReport plan.function),
    ("argument_style", .string (styleName plan.style)),
    ("call_sites", .array (plan.calls.map callReport)),
    ("files", .array (preview.files.map fileReport)), ("applied", .boolean applied)]

/-- What is said about a method that is refused. -/
def refusal (e : LiftError) (json : Bool) : Outcome :=
  if json then
    ⟨1, (ReportValue.object
      [("status", .string "rejected"), ("error", .string e.message)]).text ++ "\n", ""⟩
  else ⟨1, "", "refactoring rejected: " ++ e.message ++ "\n"⟩

/-! ## Lifting -/

/-- The settings that a command goes by. -/
def settings (host : Host m) (a : LiftArguments) : ExceptT Failure m Settings :=
  match a.settings with
  | some path =>
    during ("failed to load config " ++ path) SettingsFileError.causes (Settings.load host path)
  | none =>
    during ("failed to load " ++ Settings.fileName) SettingsFileError.causes
      (Settings.discover host a.root)

/-- The path of a file from the root of the workspace on. -/
def fileInRoot (root path absolute : String) : ExceptT Failure m String :=
  match Path.partsBelow? (Path.ofString root) (Path.ofString absolute) with
  | some parts => return "/".intercalate parts
  | none =>
    throw ⟨[path ++ " is not inside the workspace root " ++ root, "prefix not found"]⟩

/-- Writes the files that differ from those before. -/
def writeFiles (host : Host m) (root : String) : List (String × String) → ExceptT Failure m Unit
  | [] => return
  | (file, text) :: rest => do
    let path := joinPath root file
    during ("failed to write " ++ path) (fun e : DiskError => [e.message]) (host.write path text)
    writeFiles host root rest

/-- Lifts a method. -/
def runLift (host : Host m) (a : LiftArguments) : ExceptT Failure m Outcome := do
  let settings ← settings host a
  let one (e : DiskError) := [e.message]
  let root ← during ("workspace root " ++ a.root ++ " not found") one (host.resolve a.root)
  let absolute ← during ("file " ++ a.file ++ " not found") one (host.resolve a.file)
  let file ← fileInRoot root a.file absolute
  let workspace ← during ("failed to scan " ++ root)
    (fun e : ReadError => [e.message, e.error.message])
    (Workspace.load host root settings.lifting.sourceRoots)
  let request := ⟨file, a.className, a.method, settings.lifting.temporaryName⟩
  match LiftPlan.make workspace request with
  | .error e =>
    if e.isRefusal then return refusal e a.json
    else throw ⟨["make-top-level failed", e.message]⟩
  | .ok plan =>
    let before := workspace.snapshot
    let preview ← checking "failed to render preview" EditError.message (plan.preview before)
    if a.apply then
      let after ← checking "failed to apply edits" EditError.message (plan.commit before)
      writeFiles host root (before.changed after)
    if a.json then return ⟨0, (liftReport plan preview a.apply).text ++ "\n", ""⟩
    else return ⟨0, preview.diff, ""⟩

/-! ## Listing problems -/

/-- The line and the column of an offset, both counted from one, columns in characters. -/
def lineAndColumn (text : List Char) (offset : Nat) : Nat × Nat :=
  ((Text.takeBytes text offset).count '\n' + 1, (Text.lineBefore text offset).length + 1)

/-- A problem in a report. -/
def problemReport (text : List Char) (p : Problem) : ReportValue :=
  let (line, column) := lineAndColumn text p.span.start
  .object [("line", .number line), ("column", .number column), ("message", .string p.message)]

/-- A problem on a line of its own. -/
def problemLine (file : String) (text : List Char) (p : Problem) : String :=
  let (line, column) := lineAndColumn text p.span.start
  file ++ ":" ++ toString line ++ ":" ++ toString column ++ ": " ++ p.message ++ "\n"

/-- Lists the problems of a file. -/
def runProblems (host : Host m) (file : String) (json : Bool) : ExceptT Failure m Outcome := do
  let text ← during ("failed to read " ++ file) (fun e : DiskError => [e.message]) (host.read file)
  let problems := (parse text).problems
  let source := text.toList
  let stdout :=
    if json then (ReportValue.array (problems.map (problemReport source))).text ++ "\n"
    else if problems.isEmpty then file ++ ": ok\n"
    else String.join (problems.map (problemLine file source))
  return ⟨if problems.isEmpty then 0 else 1, stdout, ""⟩

/-! ## All commands -/

/-- Runs a command. -/
def run (host : Host m) (c : Command) : m Outcome := do
  let work := match c with
    | .lift a => runLift host a
    | .problems file json => runProblems host file json
  match ← work.run with
  | .ok outcome => return outcome
  | .error failure => return ⟨2, "", failure.message ++ "\n"⟩

/-- Runs the command that arguments spell. -/
def runArguments (host : Host m) (arguments : List String) : m Outcome :=
  match ofArguments? arguments with
  | some c => run host c
  | none => return ⟨2, "", usage⟩

end Command

end MethodLift
