import MethodLift.Proofs.Edit.Places
import MethodLift.Proofs.Lift.Computing
import MethodLift.Proofs.Lift.Imports
import MethodLift.Proofs.Lift.Removal

/-!
# What binds the function

The name of the function is bound at one place of a file that calls it: by the function itself, which
is put behind the statement around the class; by a name that is added to an import; by an import that
is added to the head of the file; or by an import that is there already (`Making.binding`).

Several texts can be inserted at one place; they are put there in the order in which their edits are
listed, and what binds the name is listed last (`normalize_last`).
-/

namespace MethodLift

open MethodLift.Syntax

namespace LiftPlan

/-! ## Where the name is bound -/

/-- Where a plan binds the name of the function in a file, and what it writes there for that. -/
inductive BindsAt (w : Workspace) (request : LiftRequest) (plan : LiftPlan) (home : SourceFile)
    (target : LiftTarget) (file : String) (source : SourceFile) : ℕ → String → Prop
  /-- In the home, behind the line in which the statement around the class ends. -/
  | function (here : file = request.file) :
    BindsAt w request plan home target file source
      (Text.lineEnd home.text.toList (home.module.topLevel (.classDef target.class_)).span.stop)
      (Lift.insertion request.file home.text.toList
        (home.module.topLevel (.classDef target.class_)).span.stop plan.function).text
  /-- Behind the last name of the first import from the home. -/
  | extended {path : String} {a : Alias} (other : file ≠ request.file)
    (name : w.moduleName? request.file = some path)
    (last : Import.lastOfFirst? (source.module.body.filterMap (Import.namesFrom? path)) = some a) :
    BindsAt w request plan home target file source a.span.stop (", " ++ plan.functionName)
  /-- At the head of the file. -/
  | added {path : String} (other : file ≠ request.file)
    (name : w.moduleName? request.file = some path)
    (none : Import.lastOfFirst? (source.module.body.filterMap (Import.namesFrom? path)) = none) :
    BindsAt w request plan home target file source
      (Import.lineOffset source.module source.text.toList)
      (Import.newLine source.text.toList (Import.lineOffset source.module source.text.toList) path
        plan.functionName)

/-- A statement of a file imports the name of the function as itself. -/
structure Imported (w : Workspace) (request : LiftRequest) (plan : LiftPlan) (file : String)
    (source : SourceFile) (stmt : Stmt) : Prop where
  other : file ≠ request.file
  inBody : stmt ∈ source.module.body
  binds : ∃ path mark names, w.moduleName? request.file = some path
    ∧ stmt = .importFrom mark (some path) 0 names false
    ∧ ∃ a ∈ names, a.name = plan.functionName ∧ a.boundName = plan.functionName

/-- If a file has calls and the home has a name, the calls outside the home need that name. -/
lemma importPath_ok {w : Workspace} {home : String} {sites : List CallSite} {path : Option String}
    (ok : importPath w home sites = .ok path) {site : CallSite} (hs : site ∈ sites)
    (outside : site.file ≠ home) : ∃ p, path = some p ∧ w.moduleName? home = some p := by
  have some : sites.any (·.file != home) = true :=
    List.any_eq_true.2 ⟨site, hs, bne_iff_ne.2 outside⟩
  rw [importPath, if_pos some] at ok
  split at ok
  next p named => exact ⟨p, (Except.ok.inj ok).symm, named⟩
  · cases ok

section Made

variable {s : Snapshot} {roots : List String} {request : LiftRequest} {plan : LiftPlan}
  {home : SourceFile} {target : LiftTarget} {accepted : List AttributeRead} {path : Option String}
  {done : Progress} {source : SourceFile} {file : String}
  (making : Making (Workspace.ofSnapshot s roots) request plan home target accepted path done)
  (ordered : Snapshot.Ordered s.files)
include making ordered

/-- A file with calls imports the name of the function already, or one edit of it binds the name. -/
theorem Making.binding (opened : (Workspace.ofSnapshot s roots).source file = .ok source)
    (calls : file = request.file ∨ CallSite.ofModule file request.method source.module ≠ []) :
    (∃ stmt, Imported (Workspace.ofSnapshot s roots) request plan file source stmt)
    ∨ ∃ place binding lines,
      BindsAt (Workspace.ofSnapshot s roots) request plan home target file source place binding
      ∧ Edit.insert file place (lines ++ binding) ∈ plan.edits := by
  obtain ⟨taken, isTaken, rfl, -, imports⟩ := calls_of_file ordered making.ran opened
  by_cases here : file = request.file
  · -- nothing is imported into the home, so the function is listed last
    have others : ∀ e ∈ done.imports.edits, ∀ span, Edit.isAt file span e = false := by
      intro e he span
      have none : taken.imported = none := by
        rcases isTaken.imported with ⟨none, -⟩ | ⟨p, -, other, -⟩
        · exact none
        · exact absurd here other
      rw [none] at imports
      refine Bool.eq_false_iff.2 fun place => List.filter_eq_nil_iff.1 imports e he ?_
      exact beq_iff_eq.2 (Edit.isAt_iff.1 place).1
    have edits : Edit.normalize ((done.edits.filter (fun e => !isInner request.file target.method e)
        ++ [Lift.removal request.file home.text.toList target])
        ++ Lift.insertion request.file home.text.toList
          (home.module.topLevel (.classDef target.class_)).span.stop plan.function
        :: done.imports.edits) = .ok plan.edits := by
      have edits := making.edits
      simpa only [List.append_assoc, List.cons_append, List.nil_append] using edits
    obtain ⟨lines, mem⟩ := Edit.normalize_last edits fun e he => here ▸ others e he _
    exact .inr ⟨_, _, lines, .function here, here ▸ mem⟩
  · obtain ⟨site, hs⟩ := List.exists_mem_of_ne_nil _ (calls.resolve_left here)
    have listed : site ∈ (Workspace.ofSnapshot s roots).callSites request.method := by
      obtain ⟨entry, he, is⟩ :=
        List.mem_map.1 (mem_callsByFile_of_source opened request.method)
      obtain ⟨rfl, sites⟩ := Prod.mk.inj is
      rw [← sites] at hs
      exact List.mem_flatMap.2 ⟨entry, he, hs⟩
    have inFile : site.file = file :=
      file_of_mem_callsByFile _ (mem_callsByFile_of_source opened _) site hs
    obtain ⟨p, rfl, named⟩ := importPath_ok making.imported listed (inFile ▸ here)
    have ensured : Import.ensure taken.source.module taken.source.text file p plan.functionName
        = .ok taken.imported := by
      rcases isTaken.imported with ⟨-, empty | unnamed | same⟩ | ⟨p', same, -, ensured⟩
      · rw [show CallSite.ofModule file request.method taken.source.module = [] from empty] at hs
        nomatch hs
      · nomatch unnamed
      · exact absurd same here
      · exact Option.some.inj same ▸ ensured
    -- the import is the only edit of the file among the imports, and imports are listed last
    have mem {e : Edit} (is : taken.imported = some e) {place : ℕ} {binding : String}
        (inserts : e = .insert file place binding) :
        ∃ lines, Edit.insert file place (lines ++ binding) ∈ plan.edits := by
      subst inserts
      rw [is] at imports
      have listed : Edit.insert file place binding ∈ done.imports.edits := by
        have alone : Edit.insert file place binding
            ∈ done.imports.edits.filter (·.file == file) := by
          rw [imports]
          exact List.mem_singleton.2 rfl
        exact (List.mem_filter.1 alone).1
      obtain ⟨before, behind, parts⟩ := List.append_of_mem listed
      have edits := making.edits
      rw [parts, ← List.append_assoc] at edits
      refine Edit.normalize_last edits fun e he => Bool.eq_false_iff.2 fun same => ?_
      have own : (Edit.insert file place binding :: behind).filter (·.file == file)
          = .insert file place binding :: behind.filter (·.file == file) :=
        List.filter_cons_of_pos (beq_self_eq_true file)
      rw [parts, List.filter_append, own] at imports
      have alone := congrArg List.length imports
      have some : e ∈ behind.filter (·.file == file) :=
        List.mem_filter.2 ⟨he, beq_iff_eq.2 (Edit.isAt_iff.1 same).1⟩
      have positive := List.length_pos_of_mem some
      rw [List.length_append, List.length_cons] at alone
      change _ = 1 at alone
      omega
    rcases Import.ensure_cases ensured with ⟨known, -⟩ | ⟨a, last, is⟩ | ⟨none, is⟩
    · obtain ⟨mark, names, inBody, plain⟩ := Import.any_isPlain_iff.1 known
      exact .inl ⟨_, here, inBody, p, mark, names, named, rfl, plain⟩
    · obtain ⟨lines, mem⟩ := mem is rfl
      exact .inr ⟨_, _, lines, .extended here named last, mem⟩
    · obtain ⟨lines, mem⟩ := mem is rfl
      exact .inr ⟨_, _, lines, .added here named none, mem⟩

end Made

end LiftPlan

end MethodLift
