import MethodLift.Call.Change
import MethodLift.Lift.Import
import MethodLift.Lift.Move
import MethodLift.Report.Preview
import MethodLift.Workspace.Basic

/-!
# Lifting a method

Lifting a method out of its class makes it a function of the module: what it reads of its instance
becomes its parameters, and its calls in the whole workspace pass them.  A plan holds all edits that
this takes.  Nothing is written before the plan is complete, so that whatever stands in the way of
one call stands in the way of all.
-/

namespace MethodLift

open MethodLift.Syntax

/-- What is asked for. -/
structure LiftRequest where
  file : String
  className : String
  method : String
  /-- The name that temporaries get, with a number behind it where it is taken. -/
  temporaryName : String
deriving DecidableEq, Repr, Inhabited

/-- All that lifting a method takes. -/
structure LiftPlan where
  functionName : String
  /-- The file of the class. -/
  home : String
  function : NewFunction
  parameters : ParameterPlan
  style : ArgumentStyle
  calls : List CallChange
  /-- The edits in normal form. -/
  edits : List Edit
deriving DecidableEq, Repr, Inhabited

/-- A file that was read without problems. -/
structure SourceFile where
  path : String
  text : String
  module : Module
deriving Inhabited

namespace Workspace

/-- A file that has to be read without problems. -/
def source (w : Workspace) (file : String) : Except LiftError SourceFile :=
  match w.snapshot.text? file, w.parsed? file with
  | some text, some p =>
    match p.problems with
    | [] => .ok ⟨file, text, p.module⟩
    | problem :: _ => .error (.parse file problem.describe)
  | _, _ => .error (.fileNotFound file)

end Workspace

namespace LiftPlan

/-! ## The calls -/

/-- Call sites by file, for sites in the order of files. -/
def groupByFile : List CallSite → List (String × List CallSite)
  | [] => []
  | site :: sites =>
    match groupByFile sites with
    | (file, others) :: groups =>
      if file == site.file then (file, site :: others) :: groups
      else (site.file, [site]) :: (file, others) :: groups
    | [] => [(site.file, [site])]

/-- What is known while the files with calls are taken one after the other. -/
structure Progress where
  imports : Imports
  calls : List CallChange
  edits : List Edit
deriving Inhabited

/-- Takes the calls of the next file.  A file other than the home needs the import; `path` is the
dotted name of the home, which is known if there is such a file. -/
def callsOfFile (w : Workspace) (home : String) (path : Option String) (ctx : CallContext)
    (progress : Progress) (file : String) (sites : List CallSite) :
    Except LiftError Progress := do
  let source ← w.source file
  let imports ← match path with
    | some path =>
      if file == home then .ok progress.imports
      else progress.imports.ensure source.module source.text file path ctx.functionName
    | none => .ok progress.imports
  let reads := if file == home then ParameterPlan.replacedReads ctx.plan else []
  let changed ← CallChanges.ofSites source.module source.text sites ctx reads
  return ⟨imports, progress.calls ++ changed.changes, progress.edits ++ changed.edits⟩

/-- Refuses a method whose calls look like those of another member. -/
def refuseAmbiguous (w : Workspace) (home : String) (t : LiftTarget) (sites : List CallSite) :
    Except LiftError Unit :=
  let name := t.method.name.name
  if sites.isEmpty then .ok ()
  else match w.memberBindings name home t.stmt with
    | binding :: _ => .error (.ambiguousMember name binding.file binding.span.start)
    | [] => .ok ()

/-- The dotted name of the home, if a call outside it needs the name. -/
def importPath (w : Workspace) (home : String) (sites : List CallSite) :
    Except LiftError (Option String) :=
  if sites.any (·.file != home) then
    match w.moduleName? home with
    | some path => .ok (some path)
    | none => .error (.unresolvableImportPath home)
  else .ok none

/-! ## The plan -/

/-- Takes a refusal for an error of the whole. -/
def liftSafety {α : Type} : Except SafetyError α → Except LiftError α
  | .ok a => .ok a
  | .error e => .error (.safety e)

/-- The plan that lifts a method. -/
def make (w : Workspace) (request : LiftRequest) : Except LiftError LiftPlan := do
  let home := request.file
  let source ← w.source home
  let target ← LiftTarget.find source.module home request.className request.method
  let method := target.method
  LiftTarget.refuse source.module source.text home method
  let analysis := Scope.analyze source.module target.stmt
  let reads ← liftSafety (Safety.validate analysis)
  let plan := ParameterPlan.ofReads reads (method.name.name :: analysis.usedNames)
  let style := argumentStyle method.params
  let sites := w.callSites request.method
  refuseAmbiguous w home target sites
  let path ← importPath w home sites
  let ctx : CallContext :=
    ⟨request.className, method.name.name, plan, style, request.temporaryName⟩
  let done ← (groupByFile sites).foldlM
    (fun progress (file, sites) => callsOfFile w home path ctx progress file sites) ⟨[], [], []⟩
  let (inner, outer) := done.edits.partition fun e =>
    e.file == home && method.mark.span.contains e.span
  let function ← liftEdit (NewFunction.ofMethod source.text target.stmt plan style inner)
  let text := source.text.toList
  let around := source.module.topLevel (.classDef target.class_)
  let edits := outer
    ++ [Lift.removal home text target, Lift.insertion home text around.span.stop function]
    ++ done.imports.edits
  return {
    functionName := method.name.name
    home
    function
    parameters := plan
    style
    calls := done.calls
    edits := ← liftEdit (Edit.normalize edits) }

/-- The files after a plan. -/
def commit (p : LiftPlan) (s : Snapshot) : Except EditError Snapshot := s.apply p.edits

/-- What a plan changes. -/
def preview (p : LiftPlan) (s : Snapshot) : Except EditError Preview :=
  Preview.ofEdits s p.edits

end LiftPlan

end MethodLift
