import MethodLift.Proofs.Call.Uses
import MethodLift.Proofs.Edit.Files
import MethodLift.Proofs.Lift.Making
import MethodLift.Proofs.Text.Lines

/-!
# What leaves the home

The method leaves the home in an edit of its own, with what stands before it in its first line
(`Making.method_removed`).  The changes of calls in the method go into the text of the function; a
change outside of it is an edit of the plan, and lies apart from what leaves
(`Making.callee_apart`).  So where a call names the method, an edit of the plan writes the name of
the function, or the call leaves with the method (`Making.use_edited`).
-/

namespace MethodLift

open MethodLift.Syntax MethodLift.Scope

/-! ## Files after a plan -/

/-- A plan changes each file as its edits of that file say, and no other file. -/
theorem LiftPlan.commit_ok {s : Snapshot} (ordered : Snapshot.Ordered s.files)
    {roots : List String} {request : LiftRequest} {plan : LiftPlan}
    (ok : make (Workspace.ofSnapshot s roots) request = .ok plan) :
    ∃ after, plan.commit s = .ok after ∧ ∀ path,
      (∀ text, s.text? path = some text →
        ∃ out, Edit.apply text (plan.edits.filter (·.file == path)) = .ok out
          ∧ after.text? path = some out)
        ∧ ((∀ e ∈ plan.edits, e.file ≠ path) → after.text? path = s.text? path) := by
  obtain ⟨normal, fits⟩ := make_fits ordered ok
  obtain ⟨after, done⟩ := Snapshot.apply_of_isNormal normal fits
  exact ⟨after, done, Snapshot.text?_apply normal done⟩

/-! ## The lines of the method -/

namespace Lift

variable {text : List Char}

/-- What leaves the class contains the method, with what stands before it in its first line. -/
lemma removal_contains (file : String) {t : LiftTarget} (h : t.stmt.Placed text) :
    (removal file text t).span.contains
      ⟨Text.lineStart text t.method.mark.span.start, t.method.mark.span.stop⟩ = true := by
  have before := h.here.span.start.lineBeginning.blank_before (text.length + 1)
  have behind := h.here.span.stop.lineEnd.blank_after (text.length + 1)
  have stop := Text.le_lineEnd text t.method.mark.span.stop
  unfold removal
  dsimp only
  split
  · exact Span.contains_iff.2 ⟨Nat.le_refl _, stop⟩
  split
  · exact Span.contains_iff.2 ⟨before.forward, stop⟩
  · exact Span.contains_iff.2 ⟨Nat.le_refl _, stop.trans behind.forward⟩

lemma removal_file (file : String) (t : LiftTarget) : (removal file text t).file = file := by
  unfold removal
  dsimp only
  split
  · rfl
  split <;> rfl

end Lift

/-! ## Calls in the method -/

namespace CallChanges

variable {m : Module} {d : FunctionDef Stmt} {c : ClassDef Stmt} {site : CallSite} {receiver : Expr}

/-- A callee that covers a read of a method lies in the method. -/
lemma callee_inMethod (laid : m.Laid) (method : IsMethod m c d) (stands : site.Stands m receiver)
    {x : Node} (hx : x ∈ (Node.stmt (.functionDef d)).all)
    (nonempty : x.span.start < x.span.stop) (covers : site.func.span.contains x.span = true) :
    d.mark.span.contains site.func.span = true := by
  have mem := Module.stmt_mem_nodes.2 method.mem_reachableStmts
  have inside := ((laid.node mem).descendant hx).2
  rw [Span.contains_iff] at covers ⊢
  change d.mark.span.start ≤ x.span.start ∧ x.span.stop ≤ d.mark.span.stop at inside
  rcases laid.nested_or_apart stands.callee_mem mem with (around | within) | apart | apart
  · obtain ⟨e, isExpr⟩ := Node.exists_expr?_of_mem_all (Node.expr?_read site.func) around
    nomatch isExpr
  · exact ((laid.node mem).descendant within).2
  · change site.func.span.stop ≤ d.mark.span.start at apart
    omega
  · change d.mark.span.stop ≤ site.func.span.start at apart
    omega

end CallChanges

namespace Edit

/-- Normal edits of one file lie apart. -/
lemma IsNormal.span_apart {es : List Edit} {a b : Edit} (h : IsNormal es) (ha : a ∈ es)
    (hb : b ∈ es) (same : a.file = b.file) : a = b ∨ a.span.Apart b.span := by
  have apart : es.Pairwise fun a b => a.file = b.file → a.span.Apart b.span :=
    h.apart.imp fun before same => .inl (before.resolve_left same.not_lt).2.1
  have symm : Std.Symm fun a b : Edit => a.file = b.file → a.span.Apart b.span :=
    ⟨fun _ _ apart same => (apart same.symm).symm⟩
  by_cases other : a = b
  · exact .inl other
  · exact .inr (apart.forall ha hb other same)

end Edit

/-- The three ways to make a name available. -/
theorem Import.ensure_cases {m : Module} {text file path symbol : String} {edit : Option Edit}
    (ok : ensure m text file path symbol = .ok edit) :
    ((m.body.filterMap (namesFrom? path)).any (·.any (isPlain symbol)) = true ∧ edit = none)
    ∨ (∃ a, lastOfFirst? (m.body.filterMap (namesFrom? path)) = some a
      ∧ edit = some (.insert file a.span.stop (", " ++ symbol)))
    ∨ (lastOfFirst? (m.body.filterMap (namesFrom? path)) = none
      ∧ edit = some (.insert file (lineOffset m text.toList)
        (newLine text.toList (lineOffset m text.toList) path symbol))) := by
  unfold ensure at ok
  dsimp only at ok
  split at ok
  next known => exact .inl ⟨known, (Except.ok.inj ok).symm⟩
  split at ok
  · nomatch ok
  split at ok
  next a last => exact .inr (.inl ⟨a, last, (Except.ok.inj ok).symm⟩)
  next none => exact .inr (.inr ⟨none, (Except.ok.inj ok).symm⟩)

namespace LiftPlan

/-- What is found is a method of the class that is found. -/
lemma isMethod_of_find {file className method : String} {t : LiftTarget}
    (found : LiftTarget.find m file className method = .ok t) : IsMethod m t.class_ t.method := by
  obtain ⟨⟨inModule, -⟩, inClass, -⟩ := LiftTarget.find_ok found
  exact ⟨inModule, inClass⟩

/-! ## The edits of a plan -/

/-- The changes of calls in a method. -/
def changesIn (home : String) (source : List Char) (d : FunctionDef Stmt) (edits : List Edit) :
    List Edit :=
  NewFunction.innerEdits (Text.lineStart source d.mark.span.start) d.mark.span.stop
    (edits.filter (isInner home d))

section Made

variable {s : Snapshot} {roots : List String} {request : LiftRequest} {plan : LiftPlan}
  {home : SourceFile} {target : LiftTarget} {accepted : List AttributeRead} {path : Option String}
  {done : Progress} {source : SourceFile} {file : String}
  (making : Making (Workspace.ofSnapshot s roots) request plan home target accepted path done)
include making

/-- An edit of a call is one of the plan, or it is in the method. -/
lemma Making.edit_kept {e : Edit} (he : e ∈ done.edits) (replaces : e.span.isEmpty = false) :
    e ∈ plan.edits ∨ isInner request.file target.method e = true := by
  by_cases inner : isInner request.file target.method e = true
  · exact .inr inner
  · refine .inl (Edit.mem_of_normalize making.edits ?_ replaces)
    exact List.mem_append_left _ (List.mem_append_left _
      (List.mem_filter.2 ⟨he, by rw [Bool.eq_false_iff.2 inner]; rfl⟩))

variable (ordered : Snapshot.Ordered s.files)
include ordered

lemma Making.method_nonempty :
    target.method.mark.span.start < target.method.mark.span.stop := by
  obtain ⟨-, tree, valid⟩ := Workspace.source_eq_ok ordered making.opened
  have laid : home.module.Laid := tree ▸ parse_laid valid
  have method := isMethod_of_find making.found
  exact (laid.node (Module.stmt_mem_nodes.2 method.mem_reachableStmts)).here.nonempty

/-- The method leaves the home. -/
lemma Making.method_removed :
    (Lift.removal request.file home.text.toList target).span.contains
        ⟨Text.lineStart home.text.toList target.method.mark.span.start,
          target.method.mark.span.stop⟩ = true
      ∧ Lift.removal request.file home.text.toList target ∈ plan.edits := by
  obtain ⟨-, tree, -⟩ := Workspace.source_eq_ok ordered making.opened
  have stands : home.module.Placed home.text.toList := tree ▸ parse_placed home.text
  have some := making.method_nonempty ordered
  have contains :=
    Lift.removal_contains request.file (LiftTarget.find_placed stands making.found).2
  refine ⟨contains, Edit.mem_of_normalize making.edits (List.mem_append_left _
    (List.mem_append_right _ List.mem_cons_self)) (Span.isEmpty_eq_false.2 ?_)⟩
  obtain ⟨front, back⟩ := Span.contains_iff.1 contains
  exact front.trans_lt ((Text.lineStart_le _ _).trans_lt (some.trans_le back))

/-- The method leaves the home, with what stands before it in its first line. -/
lemma Making.lines_removed : ∃ e ∈ plan.edits, e.file = request.file
    ∧ e.span.contains ⟨Text.lineStart home.text.toList target.method.mark.span.start,
        target.method.mark.span.stop⟩ = true := by
  obtain ⟨contains, he⟩ := making.method_removed ordered
  exact ⟨_, he, Lift.removal_file _ _, contains⟩

/-- A callee that is not changed in the method lies apart from what leaves the class. -/
lemma Making.callee_apart (normal : Edit.IsNormal plan.edits) {site : CallSite}
    (hs : site ∈ CallSite.ofModule request.file request.method home.module)
    (listed : CallChanges.calleeEdit (context request plan) site ∈ done.edits)
    (outer : isInner request.file target.method
      (CallChanges.calleeEdit (context request plan) site) = false) :
    (Lift.removal request.file home.text.toList target).span.Apart site.func.span := by
  obtain ⟨-, tree, valid⟩ := Workspace.source_eq_ok ordered making.opened
  have laid : home.module.Laid := tree ▸ parse_laid valid
  have method := isMethod_of_find making.found
  obtain ⟨inFile, receiver, stands⟩ := CallSite.ofModule_stands laid hs
  have kept := (making.edit_kept listed (Span.isEmpty_eq_false.2 (stands.callee_nonempty laid)))
    |>.resolve_right (Bool.eq_false_iff.1 outer)
  obtain ⟨lines, removed⟩ := making.method_removed ordered
  rcases normal.span_apart kept removed (inFile.trans (Lift.removal_file _ _).symm) with same | apart
  · refine absurd ?_ (Bool.eq_false_iff.1 outer)
    have around : site.func.span.contains target.method.mark.span = true := by
      rw [← same] at lines
      exact Span.contains_trans lines
        (Span.contains_iff.2 ⟨Text.lineStart_le _ _, Nat.le_refl _⟩)
    rw [isInner, Bool.and_eq_true, beq_iff_eq]
    refine ⟨inFile, ?_⟩
    exact CallChanges.callee_inMethod laid method stands (Node.self_mem_all _)
      (making.method_nonempty ordered) around
  · exact apart.symm

/-- Where a call names the method, an edit of the plan writes the name of the function, unless the
call is in the method itself. -/
theorem Making.use_edited (opened : (Workspace.ofSnapshot s roots).source file = .ok source)
    {use : Span} (isUse : use ∈ calledUses request.method source.module) :
    (∃ e ∈ plan.edits, e.file = file ∧ e.text = plan.functionName ∧ e.span.contains use = true)
    ∨ file = request.file ∧ target.method.mark.span.contains use = true := by
  obtain ⟨-, tree, valid⟩ := Workspace.source_eq_ok ordered opened
  obtain ⟨taken, isTaken, rfl, edits, -⟩ := calls_of_file ordered making.ran opened
  obtain ⟨site, hs, he, replaces, covers⟩ :=
    CallChanges.exists_callee_edit (tree ▸ parse_laid valid) isTaken.changed isUse
  obtain ⟨listed, inFile⟩ := List.mem_filter.1 (edits ▸ he)
  rcases making.edit_kept listed replaces with kept | inner
  · exact .inl ⟨_, kept, eq_of_beq inFile, rfl, covers⟩
  · rw [isInner, Bool.and_eq_true, beq_iff_eq] at inner
    exact .inr ⟨(eq_of_beq inFile).symm.trans inner.1, Span.contains_trans inner.2 covers⟩

end Made

end LiftPlan

end MethodLift
