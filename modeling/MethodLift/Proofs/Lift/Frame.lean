import MethodLift.Proofs.Lift.Computing
import MethodLift.Proofs.Lift.Removal
import MethodLift.Proofs.Scope.Headers

/-!
# What else changes

Where the method is not called, a plan takes its lines out of the class and puts the function behind
the statement of the module's body that contains the class; the home is otherwise copied, and no
other file changes (`only_method_moves`).  With the lines of the method go the blank lines on one side
of them.

Lines are those that end in a line feed.  Where statements are separated otherwise, more than the
method may stand in its lines, and is lost with it (`line_lost`).

Of several definitions of the name in the class the first one leaves (`first_definition_leaves`), and
the others stay (`second_definition_stays`).
-/

namespace MethodLift

open MethodLift.Syntax

/-! ## The statement around the class -/

namespace Syntax.Module.Laid

variable {m : Module} (h : m.Laid)
include h

/-- What is around a statement contains it. -/
lemma mem_all_of_mem_go {n : ℕ} {s p : Stmt} (hs : s ∈ m.reachableStmts)
    (hp : p ∈ stmtAncestors.go m n s.serial) : Node.stmt s ∈ (Node.stmt p).all := by
  induction n generalizing s with
  | zero => cases hp
  | succ n ih =>
    rw [stmtAncestors.go] at hp
    split at hp
    next q parent =>
      obtain ⟨before, after, parts, -⟩ := List.lookup_eq_some_iff.1 parent
      have listed : (s.serial, q) ∈ m.stmtParents := by
        rw [parts]
        exact List.mem_append_right _ List.mem_cons_self
      obtain ⟨hq, c, hc, same⟩ := mem_stmtParents.1 listed
      have inQ := stmt_mem_parts hc
      have isChild : Node.stmt c = .stmt s := h.eq_of_key
        (mem_nodes_of_mem_parts (stmt_mem_nodes.2 hq) inQ) (stmt_mem_nodes.2 hs)
        (congrArg Scope.ScopeKey.stmt same)
      have inside : Node.stmt s ∈ (Node.stmt q).all := isChild ▸ Node.part_mem_all inQ
      rcases List.mem_cons.1 hp with rfl | hp
      · exact inside
      · exact Node.mem_all_trans (ih hq hp) inside
    · cases hp

/-- The statement of the body around a statement contains it. -/
theorem topLevel_contains {s : Stmt} (hs : s ∈ m.reachableStmts) :
    (m.topLevel s).span.contains s.span = true := by
  have mem : m.topLevel s ∈ s :: m.stmtAncestors s.serial := List.getLastD_mem_cons
  rcases List.mem_cons.1 mem with same | above
  · rw [same]
    exact Span.contains_iff.2 ⟨Nat.le_refl _, Nat.le_refl _⟩
  · have laid := h.node (stmt_mem_nodes.2 (mem_stmtAncestors_go above))
    exact Span.contains_iff.2 (laid.descendant (h.mem_all_of_mem_go hs above)).2

end Syntax.Module.Laid

/-! ## The lines of the method -/

namespace Lift

/-- What leaves the class: the lines of the method and blank lines beside them. -/
structure Leaves (text : List Char) (method gone : Span) : Prop where
  placed : Text.Placed text gone
  before : Text.Blank text gone.start (Text.lineStart text method.start)
  behind : Text.Blank text (Text.lineEnd text method.stop) gone.stop

lemma removal_leaves {text : List Char} (file : String) {t : LiftTarget}
    (h : t.stmt.Placed text) : Leaves text t.method.mark.span (removal file text t).span := by
  have start := h.here.span.start.lineBeginning
  have stop := h.here.span.stop.lineEnd
  have before := start.blank_before (text.length + 1)
  have behind := stop.blank_after (text.length + 1)
  have lines : Text.lineStart text t.method.mark.span.start
      ≤ Text.lineEnd text t.method.mark.span.stop :=
    (Text.lineStart_le _ _).trans (h.here.span.forward.trans (Text.le_lineEnd _ _))
  unfold removal
  dsimp only
  split
  · exact ⟨⟨start.boundary, stop, lines⟩, .refl start.boundary, .refl stop⟩
  split
  · exact ⟨⟨before.start, stop, before.forward.trans lines⟩, before, .refl stop⟩
  · exact ⟨⟨start.boundary, behind.stop, lines.trans behind.forward⟩, .refl start.boundary, behind⟩

/-- What is written in the place of the lines. -/
lemma removal_text {text : List Char} (file : String) (t : LiftTarget) :
    (removal file text t).text.toList = if t.class_.body.length = 1 then
      Text.indentation text t.method.mark.span.start ++ "pass".toList ++ Text.lineBreak text
    else [] := by
  unfold removal
  dsimp only
  by_cases only : t.class_.body.length = 1
  · rw [if_pos (beq_iff_eq.2 only), if_pos only, String.toList_ofList]
  · rw [if_neg (by rwa [beq_iff_eq]), if_neg only]
    split <;> rfl

end Lift

/-! ## Two edits -/

namespace Edit

/-- The normal form of two edits that are not in the wrong order. -/
lemma normalize_pair {a b : Edit} {out : List Edit} (h : normalize [a, b] = .ok out)
    (same : a.file = b.file) (replaces : a.span.start < a.span.stop)
    (inserts : b.span.start = b.span.stop) (order : a.span.start < b.span.start) :
    out = [a, b] ∧ a.span.stop ≤ b.span.start := by
  have normal := normalize_isNormal h
  obtain ⟨a', ha, ⟨file, span⟩, -⟩ := normalize_puts h List.mem_cons_self
  obtain ⟨b', hb, ⟨file', span'⟩, -⟩ :=
    normalize_puts h (List.mem_cons_of_mem _ List.mem_cons_self)
  have apart : a.span.stop ≤ b.span.start := by
    rcases normal.span_apart ha hb (file.trans (same.trans file'.symm)) with rfl | apart
    · rw [← span', span] at inserts
      omega
    · rw [span, span'] at apart
      exact apart.resolve_right (by omega)
  have spans : a.span ≠ b.span := fun equal => by rw [equal] at order; exact lt_irrefl _ order
  have given : IsNormal [a, b] := by
    refine ⟨?_, List.pairwise_pair.2 (.inr ⟨same, apart, spans⟩)⟩
    exact List.forall_mem_cons.2 ⟨replaces.le, List.forall_mem_singleton.2 inserts.le⟩
  exact ⟨Except.ok.inj (h.symm.trans given.normalize), apart⟩

end Edit

namespace LiftPlan

/-- What a home becomes if its method moves and nothing else changes. -/
structure Moved (home : List Char) (target : LiftTarget) (after : ℕ) (function : NewFunction)
    (gone : Span) (out : List Char) : Prop where
  leaves : Lift.Leaves home target.method.mark.span gone
  order : gone.stop ≤ Text.lineEnd home after
  /-- The text in front of the lines, perhaps a `pass`, the text up to the end of the statement
  around the class, the function, and the rest. -/
  copied : out = Text.slice home ⟨0, gone.start⟩
    ++ (if target.class_.body.length = 1 then
        Text.indentation home target.method.mark.span.start ++ "pass".toList ++ Text.lineBreak home
      else [])
    ++ Text.slice home ⟨gone.stop, Text.lineEnd home after⟩
    ++ (Lift.insertion "" home after function).text.toList
    ++ Text.slice home ⟨Text.lineEnd home after, Text.width home⟩

/-- If the method is not called, the plan has two edits. -/
lemma Making.edits_of_uncalled {w : Workspace} {request : LiftRequest} {plan : LiftPlan}
    {home : SourceFile} {target : LiftTarget} {accepted : List AttributeRead}
    {path : Option String} {done : Progress}
    (making : Making w request plan home target accepted path done)
    (uncalled : w.callSites request.method = []) :
    Edit.normalize [Lift.removal request.file home.text.toList target,
      Lift.insertion request.file home.text.toList
        (home.module.topLevel (.classDef target.class_)).span.stop plan.function]
      = .ok plan.edits := by
  have ran := making.ran
  rw [uncalled] at ran
  obtain rfl := Except.ok.inj ran
  exact making.edits

/-- The statement around the class contains the method. -/
lemma Making.around_contains {s : Snapshot} {roots : List String} {request : LiftRequest}
    {plan : LiftPlan} {home : SourceFile} {target : LiftTarget} {accepted : List AttributeRead}
    {path : Option String} {done : Progress} (ordered : Snapshot.Ordered s.files)
    (making : Making (Workspace.ofSnapshot s roots) request plan home target accepted path done) :
    (home.module.topLevel (.classDef target.class_)).span.contains target.method.mark.span = true
      ∧ target.method.mark.span.start < target.method.mark.span.stop := by
  obtain ⟨-, tree, valid⟩ := Workspace.source_eq_ok ordered making.opened
  have laid : home.module.Laid := tree ▸ parse_laid valid
  have method := isMethod_of_find making.found
  refine ⟨?_, making.method_nonempty ordered⟩
  refine Span.contains_trans (laid.topLevel_contains method.class_) (Span.contains_iff.2 ?_)
  exact (laid.node (Module.stmt_mem_nodes.2 method.class_)).here.inside _
    (Module.stmt_mem_parts method.method)

/-- If the method is not called, its lines move, and nothing else changes. -/
theorem only_method_moves (files : List (String × String)) (roots : List String)
    (request : LiftRequest) (plan : LiftPlan)
    (ok : make (Workspace.ofSnapshot (Snapshot.ofList files) roots) request = .ok plan)
    (uncalled : (Workspace.ofSnapshot (Snapshot.ofList files) roots).callSites request.method
      = []) :
    ∃ after home target, plan.commit (Snapshot.ofList files) = .ok after
      ∧ (Workspace.ofSnapshot (Snapshot.ofList files) roots).source request.file = .ok home
      ∧ LiftTarget.find home.module request.file request.className request.method = .ok target
      ∧ (∀ path, path ≠ request.file →
        after.text? path = (Snapshot.ofList files).text? path)
      ∧ ∃ out gone, after.text? request.file = some out
        ∧ Moved home.text.toList target
          (home.module.topLevel (.classDef target.class_)).span.stop plan.function gone
          out.toList := by
  have ordered := Snapshot.ofList_ordered files
  obtain ⟨after, committed, changed⟩ := commit_ok ordered ok
  obtain ⟨home, target, accepted, path, done, making⟩ := make_ok ok
  obtain ⟨known, tree, -⟩ := Workspace.source_eq_ok ordered making.opened
  have stands : home.module.Placed home.text.toList := tree ▸ parse_placed home.text
  obtain ⟨class_, method⟩ := LiftTarget.find_placed stands making.found
  have leaves := Lift.removal_leaves request.file method
  obtain ⟨contained, nonempty⟩ := making.around_contains ordered
  have before := leaves.before.forward.trans (Text.lineStart_le _ _)
  have behind := (Text.le_lineEnd _ _).trans leaves.behind.forward
  have insideStop := (Span.contains_iff.1 contained).2.trans
    (Text.le_lineEnd home.text.toList _)
  obtain ⟨edits, order⟩ := Edit.normalize_pair (making.edits_of_uncalled uncalled)
    (Lift.removal_file _ _) (before.trans_lt (nonempty.trans_le behind)) rfl
    (before.trans_lt (nonempty.trans_le insideStop))
  have inHome : ∀ e ∈ plan.edits, e.file = request.file := by
    rw [edits]
    exact List.forall_mem_cons.2 ⟨Lift.removal_file _ _, List.forall_mem_singleton.2 rfl⟩
  refine ⟨after, home, target, committed, making.opened, making.found, fun path other => ?_, ?_⟩
  · exact (changed path).2 fun e he => (inHome e he).trans_ne other.symm
  obtain ⟨out, applied, is⟩ := (changed request.file).1 home.text known
  rw [List.filter_eq_self.2 fun e he => beq_iff_eq.2 (inHome e he)] at applied
  obtain ⟨normal, -⟩ := make_fits ordered ok
  obtain ⟨chars, ran, rfl⟩ := map_eq_ok.1 applied
  rw [normal.sortBySpan_eq inHome, edits] at ran
  obtain ⟨-, -, behindLines, ran', rfl⟩ := Edit.applyFrom_cons ran
  obtain ⟨-, -, behindFunction, last, rfl⟩ := Edit.applyFrom_cons ran'
  obtain rfl := Except.ok.inj last
  refine ⟨_, _, is, leaves, order, ?_⟩
  rw [String.toList_ofList, Lift.removal_text, Text.dropBytes_eq_slice]
  simp only [List.append_assoc]
  rfl

set_option maxRecDepth 100000 in
/-- The only member of a class. -/
theorem only_member_moves :
    let s := Snapshot.ofList [("a.py", "class A:\n def m(s):0\nx=1\n")]
    let request : LiftRequest := ⟨"a.py", "A", "m", "t"⟩
    (Workspace.ofSnapshot s []).callSites "m" = []
      ∧ ∃ plan, make (Workspace.ofSnapshot s []) request = .ok plan
        ∧ ∃ after home target, plan.commit s = .ok after
          ∧ (Workspace.ofSnapshot s []).source "a.py" = .ok home
          ∧ LiftTarget.find home.module "a.py" "A" "m" = .ok target
          ∧ ∃ out gone, after.text? "a.py" = some out
            ∧ Moved home.text.toList target
              (home.module.topLevel (.classDef target.class_)).span.stop plan.function gone
              out.toList := by
  intro s request
  have uncalled : (Workspace.ofSnapshot s []).callSites "m" = [] := by
    unfold s
    simp only [callSitesComputed.eq, ofSnapshotComputed.eq]
    decide +kernel
  have made : ∃ plan, make (Workspace.ofSnapshot s []) request = .ok plan := by
    refine exists_of_isOk ?_
    unfold s request
    simp only [makeComputed.eq, ofSnapshotComputed.eq]
    decide +kernel
  obtain ⟨plan, ok⟩ := made
  obtain ⟨after, home, target, committed, opened, found, -, moved⟩ :=
    only_method_moves _ _ _ plan ok uncalled
  exact ⟨uncalled, plan, ok, after, home, target, committed, opened, found, moved⟩

set_option maxRecDepth 100000 in
/-- A lone carriage return separates statements, but no lines.  What stands behind it leaves the
class as a part of the method's last line. -/
theorem line_lost :
    let text := "class A:\n def m(s):0\rx=1\n"
    let s := Snapshot.ofList [("a.py", text)]
    let edits : List Edit := [⟨"a.py", ⟨9, 25⟩, " pass\n"⟩, ⟨"a.py", ⟨25, 25⟩, "\n\ndef m():0\n"⟩]
    let after := "class A:\n pass\n\n\ndef m():0\n"
    (parse text).problems.isEmpty = true
      ∧ (Workspace.ofSnapshot s []).callSites "m" = []
      ∧ (make (Workspace.ofSnapshot s []) ⟨"a.py", "A", "m", "receiver"⟩).toOption.map (·.edits)
        = some edits
      ∧ (s.apply edits).toOption = some (Snapshot.ofList [("a.py", after)])
      ∧ (lex text).tokens.any (·.text == "x") = true
      ∧ (lex after).tokens.any (·.text == "x") = false := by
  intro text s edits after
  refine ⟨?_, ?_, ?_, ?_, ?_, ?_⟩
  · unfold text
    simp only [parseComputed.eq]
    decide +kernel
  · unfold s text
    simp only [callSitesComputed.eq, ofSnapshotComputed.eq]
    decide +kernel
  · unfold s text edits
    simp only [makeComputed.eq, ofSnapshotComputed.eq]
    decide +kernel
  · unfold s text edits after
    simp only [Snapshot.applyComputed.eq]
    decide +kernel
  · unfold text
    simp only [lex_eq_lexed]
    decide +kernel
  · unfold after
    simp only [lex_eq_lexed]
    decide +kernel

/-! ## Definitions of one name -/

/-- The definition that is taken is the first one of the name in the body of the class. -/
lemma find_first {m : Module} {file className method : String} {t : LiftTarget}
    (found : LiftTarget.find m file className method = .ok t) :
    ∃ before behind, t.class_.body = before ++ t.stmt :: behind
      ∧ ∀ d, Stmt.functionDef d ∈ before → d.name.name ≠ method := by
  unfold LiftTarget.find at found
  split at found
  · cases found
  split at found
  · cases found
  next d first =>
  obtain rfl := Except.ok.inj found
  obtain ⟨before, s, behind, parts, is, none⟩ := List.findSome?_eq_some_iff.1 first
  obtain ⟨isFunction, -⟩ := Option.filter_eq_some_iff.1 is
  have same : s = .functionDef d := by
    cases s with
    | functionDef e => rw [Option.some.inj isFunction]
    | _ => cases isFunction
  refine ⟨before, behind, parts.trans (by rw [same]; rfl), fun e he named => ?_⟩
  have unfound := none _ he
  rw [Stmt.asFunction, Option.filter_some, if_pos (beq_iff_eq.2 named)] at unfound
  cases unfound

/-- A class binds what the statements of its body bind. -/
lemma bindsName_eq_false {c : ClassDef Stmt} {name : String}
    (none : ∀ s ∈ c.body, name ∉ (Scope.namesOfStmt s).bound) :
    Scope.bindsName (.classDef c) name = false := by
  have unbound : name ∉ (Scope.namesOfBody c.body).bound := by
    change name ∉ Scope.Standing.bound.among (.flatten (c.body.map Scope.namesOfStmt))
    rw [Scope.Standing.mem_among_flatten]
    rintro ⟨names, hn, bound⟩
    obtain ⟨s, hs, rfl⟩ := List.mem_map.1 hn
    exact none s hs bound
  change (Scope.namesOfBody c.body).binds name = false
  rw [Scope.Names.binds, List.contains_eq_mem, decide_eq_false unbound]
  rfl

/-- The first definition of the name in the class leaves: nothing is copied from where it stands,
but into the text of the function.  Without it, the class does not bind the name, unless another
statement of its body does. -/
theorem first_definition_leaves (files : List (String × String)) (roots : List String)
    (request : LiftRequest) (plan : LiftPlan)
    (ok : make (Workspace.ofSnapshot (Snapshot.ofList files) roots) request = .ok plan) :
    ∃ after home target out, plan.commit (Snapshot.ofList files) = .ok after
      ∧ (Workspace.ofSnapshot (Snapshot.ofList files) roots).source request.file = .ok home
      ∧ LiftTarget.find home.module request.file request.className request.method = .ok target
      ∧ after.text? request.file = some out
      ∧ (∃ before behind, target.class_.body = before ++ target.stmt :: behind
        ∧ (∀ d, Stmt.functionDef d ∈ before → d.name.name ≠ request.method)
        ∧ ((∀ s ∈ before ++ behind, request.method ∉ (Scope.namesOfStmt s).bound) →
          Scope.bindsName (.classDef { target.class_ with body := before ++ behind })
            request.method = false))
      ∧ Text.Woven home.text.toList [target.method.mark.span]
        (fun word => ∃ e ∈ plan.edits, e.file = request.file ∧ word = e.text) out.toList := by
  have ordered := Snapshot.ofList_ordered files
  obtain ⟨after, committed, changed⟩ := commit_ok ordered ok
  obtain ⟨normal, -⟩ := make_fits ordered ok
  obtain ⟨home, target, accepted, path, done, making⟩ := make_ok ok
  obtain ⟨known, -⟩ := Workspace.source_eq_ok ordered making.opened
  obtain ⟨out, applied, is⟩ := (changed request.file).1 home.text known
  obtain ⟨before, behind, body, first⟩ := find_first making.found
  refine ⟨after, home, target, out, committed, making.opened, making.found, is,
    ⟨before, behind, body, first, fun none => bindsName_eq_false none⟩,
    (normal.ofFile request.file).woven applied (fun e he => ?_) ?_⟩
  · obtain ⟨he, inHome⟩ := List.mem_filter.1 he
    exact .word ⟨e, he, eq_of_beq inHome, rfl⟩
  · obtain ⟨e, he, inHome, lines⟩ := making.lines_removed ordered
    refine List.forall_mem_singleton.2 ⟨e, List.mem_filter.2 ⟨he, beq_iff_eq.2 inHome⟩, ?_⟩
    exact Span.contains_trans lines
      (Span.contains_iff.2 ⟨Text.lineStart_le _ _, Nat.le_refl _⟩)

set_option maxRecDepth 100000 in
/-- The first of two definitions, although the second one is what instances had. -/
theorem first_of_two_leaves :
    let s := Snapshot.ofList [("a.py", "class A:\n def m(s):0\n def m(s):1\n")]
    ∃ plan, make (Workspace.ofSnapshot s []) ⟨"a.py", "A", "m", "t"⟩ = .ok plan
      ∧ ∃ after home target out, plan.commit s = .ok after
        ∧ (Workspace.ofSnapshot s []).source "a.py" = .ok home
        ∧ LiftTarget.find home.module "a.py" "A" "m" = .ok target
        ∧ after.text? "a.py" = some out
        ∧ ∃ before behind, target.class_.body = before ++ target.stmt :: behind
          ∧ (∀ d, Stmt.functionDef d ∈ before → d.name.name ≠ "m")
          ∧ ((∀ s ∈ before ++ behind, "m" ∉ (Scope.namesOfStmt s).bound) →
            Scope.bindsName (.classDef { target.class_ with body := before ++ behind }) "m"
              = false) := by
  intro s
  have made : ∃ plan, make (Workspace.ofSnapshot s []) ⟨"a.py", "A", "m", "t"⟩ = .ok plan := by
    refine exists_of_isOk ?_
    unfold s
    simp only [makeComputed.eq, ofSnapshotComputed.eq]
    decide +kernel
  obtain ⟨plan, ok⟩ := made
  obtain ⟨after, home, target, out, committed, opened, found, is, first, -⟩ :=
    first_definition_leaves _ _ _ plan ok
  exact ⟨plan, ok, after, home, target, out, committed, opened, found, is, first⟩

set_option maxRecDepth 100000 in
/-- The class binds the name afterwards, by a definition that was not taken. -/
theorem second_definition_stays :
    let s := Snapshot.ofList [("a.py", "class A:\n def m(s):0\n def m(s):1\n")]
    let edits : List Edit := [⟨"a.py", ⟨9, 21⟩, ""⟩, ⟨"a.py", ⟨33, 33⟩, "\n\ndef m():0\n"⟩]
    let after := "class A:\n def m(s):1\n\n\ndef m():0\n"
    (make (Workspace.ofSnapshot s []) ⟨"a.py", "A", "m", "receiver"⟩).toOption.map (·.edits)
        = some edits
      ∧ (s.apply edits).toOption = some (Snapshot.ofList [("a.py", after)])
      ∧ (parse after).problems.isEmpty = true
      ∧ (LiftTarget.class? (parse after).module "A").map (fun c =>
        Scope.bindsName (.classDef c) "m") = some true := by
  intro s edits after
  refine ⟨?_, ?_, ?_, ?_⟩
  · unfold s edits
    simp only [makeComputed.eq, ofSnapshotComputed.eq]
    decide +kernel
  · unfold s edits after
    simp only [Snapshot.applyComputed.eq]
    decide +kernel
  · unfold after
    simp only [parseComputed.eq]
    decide +kernel
  · unfold after
    simp only [parseComputed.eq]
    decide +kernel

end LiftPlan

end MethodLift
