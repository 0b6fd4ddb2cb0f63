import MethodLift.Lift.Plan
import MethodLift.Proofs.Syntax.Computing

/-!
# Plans in the kernel

The functions on the way from a workspace to a plan, each with `sorted` and `lexed` in the place of
the sortings and readings in it.  A fact about a given workspace is decided by rewriting with the
form of the outermost function and computing.
-/

namespace MethodLift

open MethodLift.Syntax

/-! ## Edits -/

theorem Edit.normalize_eq_sorted :
    Edit.normalize = fun edits => Edit.mergeSorted (sorted Edit.notAfter edits) :=
  funext fun edits => congrArg Edit.mergeSorted (mergeSort_eq_sorted edits _)

theorem Edit.byFile_eq_sorted : Edit.byFile = fun edits => Edit.group (sorted Edit.notAfter edits) :=
  funext fun edits => congrArg Edit.group (mergeSort_eq_sorted edits _)

def Edit.applyComputed : Computed Edit.apply :=
  ⟨_, by
    funext text edits
    simp only [Edit.apply, Edit.sortBySpan, mergeSort_eq_sorted]
    rfl⟩

namespace Snapshot

/-- Applies the edits of one file. -/
def applyGroup (s : Snapshot) (group : String × List Edit) : Except EditError Snapshot :=
  match s.text? group.1 with
  | some text => s.set group.1 <$> Edit.apply text group.2
  | none => .error (.unknownFile group.1)

theorem applyGroups_eq_foldlM (s : Snapshot) (groups : List (String × List Edit)) :
    s.applyGroups groups = groups.foldlM applyGroup s := by
  induction groups generalizing s with
  | nil => rfl
  | cons group groups ih =>
    rw [applyGroups, List.foldlM_cons, applyGroup]
    cases s.text? group.1 with
    | none => rfl
    | some text =>
      dsimp only
      cases Edit.apply text group.2 with
      | error e => rfl
      | ok updated => exact ih _

def applyGroupComputed : Computed applyGroup :=
  ⟨_, by
    funext s group
    simp only [applyGroup, Edit.applyComputed.eq]
    rfl⟩

def applyComputed : Computed Snapshot.apply :=
  ⟨_, by
    funext s edits
    simp only [Snapshot.apply, applyGroups_eq_foldlM, applyGroupComputed.eq, Edit.byFile_eq_sorted,
      Edit.normalize_eq_sorted]
    rfl⟩

end Snapshot

/-! ## Methods -/

def analyzeComputed : Computed Scope.analyze :=
  ⟨_, by
    funext m s
    simp only [Scope.analyze, Scope.usedNames, Scope.sortedNames, Scope.reportOf, Scope.mentions,
      Scope.instanceReads, mergeSort_eq_sorted]
    rfl⟩

def memberBindingsComputed : Computed Scope.memberBindings :=
  ⟨_, by
    funext m name method
    simp only [Scope.memberBindings, stmts_eq_sorted, exprs_eq_sorted, mergeSort_eq_sorted]
    rfl⟩

def ofMethodComputed : Computed NewFunction.ofMethod :=
  ⟨_, by
    funext text s plan style changes
    simp only [NewFunction.ofMethod, Text.dedent, Text.stringSpans, lex_eq_lexed,
      Edit.normalize_eq_sorted, Edit.applyComputed.eq]
    rfl⟩

/-! ## Calls -/

def sitesComputed : Computed CallSite.ofModule :=
  ⟨_, by
    funext file member m
    simp only [CallSite.ofModule, exprs_eq_sorted, mergeSort_eq_sorted]
    rfl⟩

namespace CallChanges

def stepComputed : Computed step :=
  ⟨_, by
    funext m text ctx reads progress site
    simp only [step, receiverText, Edit.normalize_eq_sorted, Edit.applyComputed.eq]
    rfl⟩

def ofSitesComputed : Computed ofSites :=
  ⟨_, by
    funext m text sites ctx reads
    simp only [ofSites, innermostFirst, temporariesInOrder, takenNames, stepComputed.eq, lex_eq_lexed,
      mergeSort_eq_sorted]
    rfl⟩

end CallChanges

/-! ## Plans -/

def ofSnapshotComputed : Computed Workspace.ofSnapshot :=
  ⟨_, by
    funext s roots
    simp only [Workspace.ofSnapshot, parseComputed.eq]
    rfl⟩

def callSitesComputed : Computed Workspace.callSites :=
  ⟨_, by
    funext w member
    simp only [Workspace.callSites, sitesComputed.eq]
    rfl⟩

namespace LiftPlan

def makeComputed : Computed make :=
  ⟨_, by
    funext w request
    simp only [make, callsOfFile, refuseAmbiguous, Workspace.memberBindings, analyzeComputed.eq,
      memberBindingsComputed.eq, callSitesComputed.eq, ofMethodComputed.eq,
      CallChanges.ofSitesComputed.eq, Edit.normalize_eq_sorted]
    rfl⟩

end LiftPlan

end MethodLift
