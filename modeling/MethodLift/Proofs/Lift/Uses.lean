import MethodLift.Proofs.Lift.Computing
import MethodLift.Proofs.Lift.Exchange

/-!
# Uses of the method

A use of the method that is taken into account is a call of an attribute of its name, on whatever
receiver.  Of such a use nothing is left: in every file that is read, each place where the attribute
is called lies in an edit that writes the name of the function, or in the method itself, which leaves
as a whole.  Nothing is copied from these places, neither by the edits nor into their texts: with
other characters there, the same plan is made and the same files come of it
(`called_uses_replaced`).

An attribute of the name that is not called is not looked for, and stays as it is.  Where it is read
of the instance in the method itself, it becomes a parameter like any other attribute, and the calls
pass a member that is gone.
-/

namespace MethodLift

open MethodLift.Syntax

namespace LiftPlan

/-- Where the calls in a file name a member, if the file is read without problems. -/
def usesIn (w : Workspace) (member file : String) : List Span :=
  match w.source file with
  | .ok source => calledUses member source.module
  | .error _ => []

lemma exists_source_of_mem_usesIn {w : Workspace} {member file : String} {use : Span}
    (h : use ∈ usesIn w member file) :
    ∃ source, w.source file = .ok source ∧ use ∈ calledUses member source.module := by
  unfold usesIn at h
  split at h
  next source opened => exact ⟨source, opened, h⟩
  · cases h

/-- What becomes of the calls of the method in a file. -/
structure UsesReplaced (request : LiftRequest) (plan : LiftPlan) (method : Span) (file : String)
    (source : SourceFile) (out : String) : Prop where
  /-- The file is copied but for the edits. -/
  applied : Edit.apply source.text (plan.edits.filter (·.file == file)) = .ok out
  /-- Where a call names the method, the name of the function is written, unless the call leaves the
  file with the method. -/
  edited : ∀ use ∈ calledUses request.method source.module,
    (∃ e ∈ plan.edits, e.file = file ∧ e.text = plan.functionName ∧ e.span.contains use = true)
    ∨ file = request.file ∧ method.contains use = true

/-- Whoever calls the method calls the function after a plan.  Nothing of where a call names the
method is left: with other characters there, the same plan is made, and the files afterwards are the
same. -/
theorem called_uses_replaced (files : List (String × String)) (roots : List String)
    (request : LiftRequest) (plan : LiftPlan)
    (ok : make (Workspace.ofSnapshot (Snapshot.ofList files) roots) request = .ok plan) :
    ∃ after home target, plan.commit (Snapshot.ofList files) = .ok after
      ∧ (Workspace.ofSnapshot (Snapshot.ofList files) roots).source request.file = .ok home
      ∧ LiftTarget.find home.module request.file request.className request.method = .ok target
      ∧ (∀ file source,
        (Workspace.ofSnapshot (Snapshot.ofList files) roots).source file = .ok source →
        ∃ out, after.text? file = some out
          ∧ UsesReplaced request plan target.method.mark.span file source out)
      ∧ ∀ others, ExchangedFiles (context request plan)
          (usesIn (Workspace.ofSnapshot (Snapshot.ofList files) roots) request.method)
          (Snapshot.ofList files) others →
        make ((Workspace.ofSnapshot (Snapshot.ofList files) roots).withFiles others) request
            = .ok plan
          ∧ ∃ after', plan.commit others = .ok after'
            ∧ ∀ file, after'.text? file = after.text? file := by
  have ordered := Snapshot.ofList_ordered files
  obtain ⟨after, committed, changed⟩ := commit_ok ordered ok
  obtain ⟨home, target, accepted, path, done, making⟩ := make_ok ok
  refine ⟨after, home, target, committed, making.opened, making.found,
    fun file source opened => ?_, fun others exchanged => ?_⟩
  · obtain ⟨known, -⟩ := Workspace.source_eq_ok ordered opened
    obtain ⟨out, applied, is⟩ := (changed file).1 source.text known
    exact ⟨out, is, applied, fun use isUse => making.use_edited ordered opened isUse⟩
  · have replaced (file : String) (use : Span) (isUse : use ∈ usesIn
        (Workspace.ofSnapshot (Snapshot.ofList files) roots) request.method file) :
        Replaces (Workspace.ofSnapshot (Snapshot.ofList files) roots) request plan file use := by
      obtain ⟨source, opened, isUse⟩ := exists_source_of_mem_usesIn isUse
      exact ⟨source, opened, .inl isUse⟩
    exact ⟨make_exchange ordered ok replaced exchanged,
      commit_exchange ordered ok replaced exchanged committed⟩

set_option maxRecDepth 100000 in
/-- A call outside the method, and one in the method itself.  The files afterwards are the same with
something else in the place of the method's name. -/
theorem recursive_calls_replaced :
    let s := Snapshot.ofList [("a.py", "class A:\n def m(s):a.m()\na.m()\n")]
    let others := Snapshot.ofList [("a.py", "class A:\n def m(s):a.+()\na.+()\n")]
    ∃ plan, make (Workspace.ofSnapshot s []) ⟨"a.py", "A", "m", "t"⟩ = .ok plan
      ∧ make ((Workspace.ofSnapshot s []).withFiles others) ⟨"a.py", "A", "m", "t"⟩ = .ok plan
      ∧ ∃ after home target, plan.commit s = .ok after
        ∧ (Workspace.ofSnapshot s []).source "a.py" = .ok home
        ∧ LiftTarget.find home.module "a.py" "A" "m" = .ok target
        ∧ (∃ out, after.text? "a.py" = some out ∧ UsesReplaced ⟨"a.py", "A", "m", "t"⟩ plan
          target.method.mark.span "a.py" home out)
        ∧ ∃ after', plan.commit others = .ok after'
          ∧ after'.text? "a.py" = after.text? "a.py" := by
  intro s others
  have made : ∃ plan, make (Workspace.ofSnapshot s []) ⟨"a.py", "A", "m", "t"⟩ = .ok plan := by
    refine exists_of_isOk ?_
    unfold s
    simp only [makeComputed.eq, ofSnapshotComputed.eq]
    decide +kernel
  obtain ⟨plan, ok⟩ := made
  obtain ⟨after, home, target, committed, opened, found, replaced, independent⟩ :=
    called_uses_replaced _ _ _ plan ok
  have exchanged : ExchangedFiles (context ⟨"a.py", "A", "m", "t"⟩ plan)
      (usesIn (Workspace.ofSnapshot s []) "m") s others := by
    change List.Forall₂ _ [("a.py", "class A:\n def m(s):a.m()\na.m()\n")]
      [("a.py", "class A:\n def m(s):a.+()\na.+()\n")]
    refine .cons ⟨rfl, .of_names ?_ ?_⟩ .nil
    · unfold s
      simp only [usesIn, calledUses, ofSnapshotComputed.eq, exprs_eq_sorted]
      decide +kernel
    · simp only [lex_eq_lexed]
      decide +kernel
  obtain ⟨same, after', committed', becomes⟩ := independent others exchanged
  exact ⟨plan, ok, same, after, home, target, committed, opened, found, replaced _ home opened,
    after', committed', becomes _⟩

set_option maxRecDepth 100000 in
/-- An attribute of the method's name that is not called stays as it is. -/
theorem method_value_kept :
    let text := "class A:\n def m(s):0\nf=a.m\n"
    let s := Snapshot.ofList [("a.py", text)]
    let edits : List Edit := [⟨"a.py", ⟨9, 21⟩, " pass\n"⟩, ⟨"a.py", ⟨21, 21⟩, "\n\ndef m():0\n"⟩]
    let after := "class A:\n pass\n\n\ndef m():0\nf=a.m\n"
    (parse text).problems.isEmpty = true
      ∧ ((LiftTarget.find (parse text).module "a.py" "A" "m").toOption.map fun t =>
          (Workspace.ofSnapshot s []).memberBindings "m" "a.py" t.stmt) = some []
      ∧ (make (Workspace.ofSnapshot s []) ⟨"a.py", "A", "m", "receiver"⟩).toOption.map (·.edits)
        = some edits
      ∧ (s.apply edits).toOption = some (Snapshot.ofList [("a.py", after)])
      ∧ (parse after).problems.isEmpty = true
      ∧ (parse after).module.exprs.any (fun
        | .attr _ _ name .load => name.name == "m"
        | _ => false) = true := by
  intro text s edits after
  refine ⟨?_, ?_, ?_, ?_, ?_, ?_⟩
  · unfold text
    simp only [parseComputed.eq]
    decide +kernel
  · unfold text s
    simp only [Workspace.memberBindings, parseComputed.eq, ofSnapshotComputed.eq,
      memberBindingsComputed.eq]
    decide +kernel
  · unfold s text edits
    simp only [makeComputed.eq, ofSnapshotComputed.eq]
    decide +kernel
  · unfold s text edits after
    simp only [Snapshot.applyComputed.eq]
    decide +kernel
  · unfold after
    simp only [parseComputed.eq]
    decide +kernel
  · unfold after
    simp only [parseComputed.eq, exprs_eq_sorted]
    decide +kernel

end LiftPlan

end MethodLift
