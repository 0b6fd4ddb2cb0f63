import MethodLift.Proofs.Call.TemporaryLines
import MethodLift.Proofs.Lift.Computing
import MethodLift.Proofs.Lift.Order
import MethodLift.Proofs.Method.Replacement

/-!
# Temporaries before their statement

The lines that keep the receivers of a statement are inserted where its line begins, one behind the
other, and what is inserted there in addition is put behind them: the calls of all files come first in
the list of edits, and the edits of one place are put together in the order of that list.  So nothing
comes in front of the lines, but the function, or a new import, comes between them and the statement
if it goes to the same place (`temporaries_before_statement`).  That place is behind the class, for the
function, and behind the imports at the head of a file, for an import
(`import_between_temporary_and_statement`).

A statement of the method itself leaves with the method.  Its lines go into the text of the function,
where they stand alone, because the method begins on an earlier line.
-/

namespace MethodLift

open MethodLift.Syntax

namespace Lift

variable {source : List Char} {file : String}

/-- What leaves the class begins where a line does. -/
lemma removal_begins {t : LiftTarget} (h : t.stmt.Placed source) :
    Text.LineBeginning source (removal file source t).span.start := by
  have start := h.here.span.start.lineBeginning
  unfold removal
  dsimp only
  split
  · exact start
  split
  · exact start.skipBlankBefore _
  · exact start

/-- The function is put between lines. -/
lemma insertion_between {after : ℕ} {f : NewFunction} (h : Text.Boundary source after) :
    Text.BetweenLines source (insertion file source after f).span.start := h.lineEnd_between

end Lift

/-- An edit is at a place behind an offset if it is there when it is counted from the offset on. -/
lemma NewFunction.isAt_comp_relative {base place : ℕ} (later : base < place) :
    Edit.isAt scratchFile (.point (place - base)) ∘ relative base
      = fun e => e.span == .point place := by
  funext ⟨_, ⟨start, stop⟩, _⟩
  rw [Function.comp_apply, Bool.eq_iff_iff, Edit.isAt_iff, beq_iff_eq]
  change _ ∧ Span.mk (start - base) (stop - base) = .mk (place - base) (place - base)
    ↔ Span.mk start stop = .mk place place
  rw [Span.mk.injEq, Span.mk.injEq]
  constructor
  · rintro ⟨-, same⟩
    omega
  · rintro ⟨rfl, rfl⟩
    exact ⟨rfl, rfl, rfl⟩

/-- What is at a place of a file is in that file. -/
lemma Edit.filter_isAt_ofFile (file : String) (span : Span) (es : List Edit) :
    (es.filter (·.file == file)).filter (isAt file span) = es.filter (isAt file span) := by
  rw [List.filter_filter]
  refine List.filter_congr fun e _ => ?_
  rw [isAt, Bool.and_right_comm, Bool.and_self]

namespace LiftPlan

open CallChanges
open Hoisting (ofStmt assignments)

/-- The reads that the calls of a file take over. -/
def readsOf (request : LiftRequest) (plan : LiftPlan) (file : String) : List ReplacedRead :=
  if file == request.file then plan.parameters.replacedReads else []

/-- Whether a statement of a file is one of the method that is lifted. -/
def InMethod (request : LiftRequest) (target : LiftTarget) (file : String) (stmt : Stmt) : Prop :=
  file = request.file ∧ .stmt stmt ∈ (Node.stmt target.stmt).all

/-- If the name of the function is added to an import of a file, then not to one that ends in the
blanks in front of a statement. -/
def ImportApart (w : Workspace) (request : LiftRequest) (file : String) (source : SourceFile)
    (h : Hoisting) : Prop :=
  ∀ path a, file ≠ request.file → w.moduleName? request.file = some path →
    Import.lastOfFirst? (source.module.body.filterMap (Import.namesFrom? path)) = some a →
    a.span.stop ≤ h.place source.text.toList ∨ h.stmt.span.start ≤ a.span.stop

/-- The parameters of the method stand on lines in front of that of a statement. -/
def ParametersAhead (plan : LiftPlan) (target : LiftTarget) (source : List Char) (h : Hoisting) :
    Prop :=
  ∀ e ∈ NewFunction.parameterEdits target.method.params plan.parameters.parameters plan.style,
    e.span.start < h.place source

/-- The edits that the text of the function is made with, where they are in the home. -/
def functionEdits (request : LiftRequest) (plan : LiftPlan) (target : LiftTarget)
    (source : List Char) (done : Progress) : List Edit :=
  NewFunction.parameterEdits target.method.params plan.parameters.parameters plan.style
    ++ NewFunction.readEdits plan.parameters
      (changesIn request.file source target.method done.edits)
    ++ changesIn request.file source target.method done.edits

lemma moduleName?_of_importPath {w : Workspace} {home path : String} {sites : List CallSite}
    (ok : importPath w home sites = .ok (some path)) : w.moduleName? home = some path := by
  unfold importPath at ok
  split at ok
  · split at ok
    next p named => rw [named, ← Except.ok.inj ok]
    · cases ok
  · cases ok

/-- What the calls of a file are changed to, with the lines that keep receivers, as part of what the
calls of all files give. -/
structure Hoisted (w : Workspace) (request : LiftRequest) (plan : LiftPlan) (done : Progress)
    (file : String) (source : SourceFile) (changed : CallChanges) (imported : Option Edit)
    (hoistings lines : List Hoisting) : Prop where
  opened : w.source file = .ok source
  ok : ofSites source.module source.text (CallSite.ofModule file request.method source.module)
    (context request plan) (readsOf request plan file) = .ok changed
  kept : Kept source.module source.text (CallSite.ofModule file request.method source.module)
    (context request plan) changed hoistings lines
  beside : ∀ h ∈ lines, Beside file source.text.toList lines changed.edits h
  comes : ∀ site ∈ CallSite.ofModule file request.method source.module,
    Comes source.module source.text (context request plan) (readsOf request plan file)
      (innermostFirst (CallSite.ofModule file request.method source.module))
      (innermostFirst (CallSite.ofModule file request.method source.module)) lines changed.edits site
  edits : done.edits.filter (·.file == file) = changed.edits
  imports : done.imports.edits.filter (·.file == file) = imported.toList
  ensured : imported = none ∨ ∃ path, w.moduleName? request.file = some path ∧ file ≠ request.file
    ∧ Import.ensure source.module source.text file path plan.functionName = .ok imported

/-- At the place of a line there are the lines of its statement. -/
lemma Hoisted.edits_at {w : Workspace} {request : LiftRequest} {plan : LiftPlan} {done : Progress}
    {file : String} {source : SourceFile} {changed : CallChanges} {imported : Option Edit}
    {hoistings lines : List Hoisting} {h : Hoisting}
    (hoisted : Hoisted w request plan done file source changed imported hoistings lines)
    (mem : h ∈ lines) :
    done.edits.filter (Edit.isAt file (.point (h.place source.text.toList)))
      = (ofStmt h.stmt lines).map fun x => (x.line source.text.toList).edit := by
  rw [← (hoisted.beside h mem).here, ← hoisted.edits, Edit.filter_isAt_ofFile]

section Made

variable {s : Snapshot} {roots : List String} {request : LiftRequest} {plan : LiftPlan}
  {home : SourceFile} {target : LiftTarget} {accepted : List AttributeRead} {path : Option String}
  {done : Progress} {source : SourceFile} {file : String}
  (making : Making (Workspace.ofSnapshot s roots) request plan home target accepted path done)
  (ordered : Snapshot.Ordered s.files)
include making ordered

variable {changed : CallChanges} {imported : Option Edit} {hoistings lines : List Hoisting}

/-- Receivers are kept in a file as they are if it is the only one. -/
lemma Making.exists_hoisted (opened : (Workspace.ofSnapshot s roots).source file = .ok source) :
    ∃ changed imported hoistings lines, Hoisted (Workspace.ofSnapshot s roots) request plan done
      file source changed imported hoistings lines := by
  obtain ⟨-, tree, valid⟩ := Workspace.source_eq_ok ordered opened
  obtain ⟨taken, is, rfl, edits, imports⟩ := calls_of_file ordered making.ran opened
  have ok := is.changed
  obtain ⟨hoistings, lines, kept, beside, comes⟩ :=
    exists_lines file request.method taken.source.text _ _ valid (tree ▸ ok)
  refine ⟨taken.changed, taken.imported, hoistings, lines, opened, ok, tree ▸ kept, beside,
    tree ▸ comes, edits, imports, is.imported.imp And.left ?_⟩
  rintro ⟨p, rfl, away, ensured⟩
  exact ⟨p, moduleName?_of_importPath making.imported, away, ensured⟩

/-! ## Where the other edits are -/

/-- What leaves the class does not begin in the blanks in front of a statement that stays, nor where
its line begins. -/
lemma Making.removal_beside (normal : Edit.IsNormal plan.edits)
    (hoisted : Hoisted (Workspace.ofSnapshot s roots) request plan done request.file home changed
      imported hoistings lines) {h : Hoisting} (mem : h ∈ lines)
    (stays : ¬ InMethod request target request.file h.stmt) :
    (Lift.removal request.file home.text.toList target).span.start < h.place home.text.toList
      ∨ h.stmt.span.start ≤ (Lift.removal request.file home.text.toList target).span.start := by
  have kept := hoisted.kept
  have listed : changed.edits ⊆ done.edits := hoisted.edits ▸ List.filter_subset_self _
  obtain ⟨-, tree, valid⟩ := Workspace.source_eq_ok ordered making.opened
  have laid : home.module.Laid := tree ▸ parse_laid valid
  have stands : home.module.Placed home.text.toList := tree ▸ parse_placed home.text
  have method := isMethod_of_find making.found
  have kept' := tree ▸ kept
  have inside := kept'.site_inside valid mem
  have cut : Text.Boundary home.text.toList h.stmt.span.start :=
    (stands.stmts _ (anchorOf_ok (kept.each h mem).2).1).here.span.start
  have begins : Text.LineBeginning _ (Lift.removal request.file _ _).span.start :=
    Lift.removal_begins (LiftTarget.find_placed stands making.found).2
  rcases (Text.BetweenLines.beside (.inl begins) cut) with before | same | behind
  · exact .inl before
  · -- a call there would be changed where the method leaves
    exfalso
    change _ = h.place home.text.toList at same
    have line := Text.lineStart_le home.text.toList h.stmt.span.start
    change h.place home.text.toList ≤ _ at line
    obtain ⟨lines, removed⟩ := making.method_removed ordered
    obtain ⟨front, back⟩ := Span.contains_iff.1 lines
    change _ ≤ Text.lineStart home.text.toList target.method.mark.span.start at front
    change target.method.mark.span.stop ≤ _ at back
    have head := Text.lineStart_le home.text.toList target.method.mark.span.start
    have some := making.method_nonempty ordered
    have hs : h.site ∈ CallSite.ofModule request.file request.method home.module :=
      List.mem_mergeSort.1 (kept.sites.subset (List.mem_map_of_mem (kept.perm.mem_iff.1 mem)))
    obtain ⟨-, receiver, atSite⟩ := CallSite.ofModule_stands laid hs
    have callee := atSite.callee_nonempty laid
    have inCall : h.site.span.start ≤ h.site.func.span.start
        ∧ h.site.func.span.stop ≤ h.site.span.stop :=
      (laid.node atSite.call).here.inside (.read h.site.func) List.mem_cons_self
    obtain ⟨around, isCall, edited, -, covers⟩ := exists_edit_around laid hoisted.ok hs
    rw [Span.contains_iff] at covers
    rcases kept'.besideMethod valid (tree ▸ method) mem with inBody | ahead | behind
    · exact stays ⟨rfl, inBody⟩
    · by_cases outer : isInner request.file target.method
          (calleeEdit (context request plan) around) = true
      · rw [isInner, Bool.and_eq_true, Span.contains_iff] at outer
        obtain ⟨-, start, -⟩ := outer
        change target.method.mark.span.start ≤ around.func.span.start at start
        omega
      · rcases making.callee_apart ordered normal isCall (listed edited)
          (Bool.eq_false_iff.2 outer) with apart | apart
        · omega
        · omega
    · change _ < h.place home.text.toList at behind
      omega
  · exact .inr behind

/-- A line goes into the text of the function if its statement is one of the method. -/
lemma Making.isInner_line (hoisted : Hoisted (Workspace.ofSnapshot s roots) request plan done file
      source changed imported hoistings lines) {h : Hoisting} (mem : h ∈ lines) {e : Edit}
    (at_ : Edit.isAt file (.point (h.place source.text.toList)) e = true) :
    isInner request.file target.method e = true ↔ InMethod request target file h.stmt := by
  obtain ⟨inFile, span⟩ := Edit.isAt_iff.1 at_
  rw [isInner, Bool.and_eq_true, beq_iff_eq, Span.contains_iff, InMethod, inFile, span]
  refine and_congr_right fun here => ?_
  subst here
  obtain rfl := Except.ok.inj (hoisted.opened.symm.trans making.opened)
  obtain ⟨-, tree, valid⟩ := Workspace.source_eq_ok ordered making.opened
  have laid : source.module.Laid := tree ▸ parse_laid valid
  have method := isMethod_of_find making.found
  have kept := tree ▸ hoisted.kept
  have inside := kept.site_inside valid mem
  have line := Text.lineStart_le source.text.toList h.stmt.span.start
  change h.place source.text.toList ≤ _ at line
  change target.method.mark.span.start ≤ h.place source.text.toList
    ∧ h.place source.text.toList ≤ target.method.mark.span.stop ↔ _
  constructor
  · rintro ⟨start, stop⟩
    rcases kept.besideMethod valid (tree ▸ method) mem with inBody | ahead | behind
    · exact inBody
    · omega
    · change _ < h.place source.text.toList at behind
      omega
  · intro inBody
    have inMethod := ((laid.node (Module.stmt_mem_nodes.2 method.mem_reachableStmts)).descendant
      inBody).2
    change target.method.mark.span.start ≤ h.stmt.span.start
      ∧ h.stmt.span.stop ≤ target.method.mark.span.stop at inMethod
    rcases kept.besideMethod valid (tree ▸ method) mem with ⟨-, begins⟩ | ahead | behind
    · change _ < h.place source.text.toList at begins
      omega
    · omega
    · change _ < h.place source.text.toList at behind
      omega

/-- What a plan inserts at a place beside changes of calls is what binds the name of the function. -/
lemma Making.others_at (hoisted : Hoisted (Workspace.ofSnapshot s roots) request plan done file
      source changed imported hoistings lines) (place : ℕ) :
    ∃ binding, (([Lift.removal request.file home.text.toList target,
        Lift.insertion request.file home.text.toList
          (home.module.topLevel (.classDef target.class_)).span.stop plan.function]
        ++ done.imports.edits).filter (Edit.isAt file (.point place))).map (·.text) = binding
      ∧ (binding = [] ∨ ∃ own, binding = [own]
        ∧ BindsAt (Workspace.ofSnapshot s roots) request plan home target file source place own) := by
  refine ⟨_, rfl, ?_⟩
  have ofImports : done.imports.edits.filter (Edit.isAt file (.point place))
      = imported.toList.filter (Edit.isAt file (.point place)) := by
    rw [← Edit.filter_isAt_ofFile, hoisted.imports]
  -- one insertion, at the place or elsewhere
  have alone {at_ : ℕ} {own : String} (binds : BindsAt (Workspace.ofSnapshot s roots) request plan
      home target file source at_ own) {texts : List String}
      (is : (([Edit.insert file at_ own].filter (Edit.isAt file (.point place))).map (·.text))
        = texts) : texts = [] ∨ ∃ own, texts = [own] ∧ BindsAt (Workspace.ofSnapshot s roots)
        request plan home target file source place own := by
    rw [List.filter_singleton, Edit.isAt_insert] at is
    by_cases here : at_ = place
    · rw [decide_eq_true here] at is
      exact .inr ⟨own, is.symm, here ▸ binds⟩
    · rw [decide_eq_false here] at is
      exact .inl is.symm
  rw [List.filter_append, ofImports]
  by_cases here : file = request.file
  · subst here
    obtain rfl := Except.ok.inj (hoisted.opened.symm.trans making.opened)
    have none : imported = none := hoisted.ensured.resolve_right fun ⟨_, _, other, _⟩ => other rfl
    have leaves : ¬ Edit.isAt request.file (.point place)
        (Lift.removal request.file source.text.toList target) = true := by
      rw [Edit.isAt_iff]
      rintro ⟨-, same⟩
      obtain ⟨front, back⟩ := Span.contains_iff.1 (same ▸ (making.method_removed ordered).1)
      have some := making.method_nonempty ordered
      have line := Text.lineStart_le source.text.toList target.method.mark.span.start
      change place ≤ Text.lineStart _ _ at front
      change target.method.mark.span.stop ≤ place at back
      omega
    rw [none, Option.toList_none, List.filter_nil, List.append_nil, List.filter_cons_of_neg leaves]
    exact alone (.function rfl) rfl
  · have others : [Lift.removal request.file home.text.toList target,
        Lift.insertion request.file home.text.toList
          (home.module.topLevel (.classDef target.class_)).span.stop plan.function].filter
        (Edit.isAt file (.point place)) = [] := by
      refine List.filter_eq_nil_iff.2 fun e he is => here ?_
      rw [← (Edit.isAt_iff.1 is).1]
      rcases List.mem_cons.1 he with rfl | he
      · exact Lift.removal_file _ _
      · obtain rfl := List.mem_singleton.1 he
        rfl
    rw [others, List.nil_append]
    rcases hoisted.ensured with rfl | ⟨p, named, -, ensured⟩
    · exact .inl rfl
    rcases Import.ensure_cases ensured with ⟨-, rfl⟩ | ⟨a, last, rfl⟩ | ⟨none, rfl⟩
    · exact .inl rfl
    · exact alone (.extended here named last) rfl
    · exact alone (.added here named none) rfl

/-- Where the lines of a statement that stays are put, nothing is put in front of them. -/
theorem Making.lines_inserted (hoisted : Hoisted (Workspace.ofSnapshot s roots) request plan done
      file source changed imported hoistings lines) {h : Hoisting} (mem : h ∈ lines)
    (stays : ¬ InMethod request target file h.stmt) :
    ∃ own, (own = "" ∨ BindsAt (Workspace.ofSnapshot s roots) request plan home target file source
        (h.place source.text.toList) own)
      ∧ Edit.insert file (h.place source.text.toList)
        (assignments source.text.toList h.stmt lines ++ own) ∈ plan.edits := by
  obtain ⟨-, tree, valid⟩ := Workspace.source_eq_ok ordered hoisted.opened
  have kept := tree ▸ hoisted.kept
  have outer : (done.edits.filter fun e => !isInner request.file target.method e).filter
      (Edit.isAt file (.point (h.place source.text.toList)))
        = (ofStmt h.stmt lines).map fun x => (x.line source.text.toList).edit := by
    rw [List.filter_comm, List.filter_eq_self.2, hoisted.edits_at mem]
    intro e he
    rw [Bool.not_eq_true', Bool.eq_false_iff]
    exact fun inner =>
      stays ((making.isInner_line ordered hoisted mem (List.mem_filter.1 he).2).1 inner)
  obtain ⟨binding, others, known⟩ := making.others_at ordered hoisted (h.place source.text.toList)
  have edits := making.edits
  rw [List.append_assoc] at edits
  obtain ⟨first, rest, shape, joined⟩ := kept.joined_assignments valid mem
  have texts : (((done.edits.filter fun e => !isInner request.file target.method e)
      ++ ([Lift.removal request.file home.text.toList target,
        Lift.insertion request.file home.text.toList
          (home.module.topLevel (.classDef target.class_)).span.stop plan.function]
      ++ done.imports.edits)).filter
        (Edit.isAt file (.point (h.place source.text.toList)))).map (·.text)
        = first :: (rest ++ binding) := by
    rw [List.filter_append, List.map_append, others, outer, List.map_map, ← List.cons_append]
    exact congrArg (· ++ binding) shape
  have mem := Edit.normalize_inserted edits texts
  rcases known with rfl | ⟨own, rfl, binds⟩
  · rw [List.append_nil, joined] at mem
    exact ⟨"", .inl rfl, by rwa [String.append_empty]⟩
  · rw [Edit.joined_concat, joined] at mem
    split at mem
    · exact ⟨"", .inl rfl, by rwa [String.append_empty]⟩
    · exact ⟨own, .inr binds, mem⟩

/-- No edit of a plan begins between the lines of a statement that stays and the statement. -/
theorem Making.nothing_between (normal : Edit.IsNormal plan.edits)
    (hoisted : Hoisted (Workspace.ofSnapshot s roots) request plan done file source changed imported
      hoistings lines) {h : Hoisting} (mem : h ∈ lines)
    (stays : ¬ InMethod request target file h.stmt)
    (apart : ImportApart (Workspace.ofSnapshot s roots) request file source h) :
    ∀ e ∈ plan.edits.filter (·.file == file), e.span.start < h.place source.text.toList
      ∨ e.span = .point (h.place source.text.toList) ∨ h.stmt.span.start ≤ e.span.start := by
  obtain ⟨-, tree, -⟩ := Workspace.source_eq_ok ordered hoisted.opened
  have stands : source.module.Placed source.text.toList := tree ▸ parse_placed source.text
  have cut : Text.Boundary source.text.toList h.stmt.span.start :=
    (stands.stmts _ (anchorOf_ok (hoisted.kept.each h mem).2).1).here.span.start
  have between {n : ℕ} (begins : Text.BetweenLines source.text.toList n) :
      n < h.place source.text.toList ∨ Span.point n = .point (h.place source.text.toList)
        ∨ h.stmt.span.start ≤ n := (begins.beside cut).imp_right (.imp_left (congrArg Span.point))
  intro e he
  obtain ⟨he, inFile⟩ := List.mem_filter.1 he
  obtain ⟨given, listed, same, span⟩ := Edit.normalize_place making.edits he
  rw [span]
  rw [same, beq_iff_eq] at inFile
  rcases List.mem_append.1 listed with listed | ofImport
  · rcases List.mem_append.1 listed with ofCall | moved
    · refine (hoisted.beside h mem).others given ?_
      rw [← hoisted.edits]
      exact List.mem_filter.2 ⟨(List.mem_filter.1 ofCall).1, beq_iff_eq.2 inFile⟩
    have here : file = request.file := by
      rcases List.mem_cons.1 moved with rfl | moved
      · exact inFile.symm.trans (Lift.removal_file _ _)
      · obtain rfl := List.mem_singleton.1 moved
        exact inFile.symm
    subst here
    obtain rfl := Except.ok.inj (hoisted.opened.symm.trans making.opened)
    rcases List.mem_cons.1 moved with rfl | moved
    · exact (making.removal_beside ordered normal hoisted mem stays).imp_right .inr
    · obtain rfl := List.mem_singleton.1 moved
      have method := isMethod_of_find making.found
      exact between (Lift.insertion_between
        (stands.topLevel (stands.stmts _ method.class_)).here.span.stop)
  · have listed : given ∈ imported.toList := by
      rw [← hoisted.imports]
      exact List.mem_filter.2 ⟨ofImport, beq_iff_eq.2 inFile⟩
    rw [Option.mem_toList] at listed
    rcases hoisted.ensured with rfl | ⟨p, named, other, ensured⟩
    · nomatch listed
    rcases Import.ensure_cases ensured with ⟨-, rfl⟩ | ⟨a, last, rfl⟩ | ⟨-, rfl⟩
    · nomatch listed
    · obtain rfl := Option.some.inj listed
      rcases apart p a other named last with before | behind
      · exact before.lt_or_eq.imp_right fun same => .inl (congrArg Span.point same)
      · exact .inr (.inr behind)
    · obtain rfl := Option.some.inj listed
      exact between (Import.lineOffset_between stands)

/-! ## Statements of the method -/

/-- A statement of the method that has lines is on a later line of the method than its first one. -/
lemma Making.line_inside (hoisted : Hoisted (Workspace.ofSnapshot s roots) request plan done
      request.file home changed imported hoistings lines) {h : Hoisting} (mem : h ∈ lines)
    (inMethod : InMethod request target request.file h.stmt) :
    target.method.mark.span.start < h.place home.text.toList
      ∧ h.place home.text.toList ≤ h.stmt.span.start
      ∧ h.stmt.span.start ≤ target.method.mark.span.stop := by
  obtain ⟨-, tree, valid⟩ := Workspace.source_eq_ok ordered making.opened
  have laid : home.module.Laid := tree ▸ parse_laid valid
  have method := isMethod_of_find making.found
  have kept := tree ▸ hoisted.kept
  have line := Text.lineStart_le home.text.toList h.stmt.span.start
  change h.place home.text.toList ≤ _ at line
  have inside := ((laid.node (Module.stmt_mem_nodes.2 method.mem_reachableStmts)).descendant
    inMethod.2).2
  change target.method.mark.span.start ≤ h.stmt.span.start
    ∧ h.stmt.span.stop ≤ target.method.mark.span.stop at inside
  have site := kept.site_inside valid mem
  refine ⟨?_, line, by omega⟩
  rcases kept.besideMethod valid (tree ▸ method) mem with ⟨-, begins⟩ | ahead | behind
  · exact begins
  · omega
  · change _ < h.place home.text.toList at behind
    omega

/-- No read that is replaced begins in the blanks in front of a statement. -/
lemma Making.reads_beside (hoisted : Hoisted (Workspace.ofSnapshot s roots) request plan done
      request.file home changed imported hoistings lines) {h : Hoisting} (mem : h ∈ lines)
    (inner : List Edit) : ∀ e ∈ NewFunction.readEdits plan.parameters inner,
      e.span.start < e.span.stop
      ∧ (e.span.start < h.place home.text.toList ∨ h.stmt.span.start ≤ e.span.start) := by
  obtain ⟨-, tree, valid⟩ := Workspace.source_eq_ok ordered making.opened
  have laid : home.module.Laid := tree ▸ parse_laid valid
  have kept := tree ▸ hoisted.kept
  intro e he
  rw [NewFunction.readEdits_eq] at he
  obtain ⟨r, hr, rfl⟩ := List.mem_map.1 he
  have same : (plan.parameters.replacedReads.map (·.span)).Perm (accepted.map (·.span)) := by
    rw [making.parameters]
    exact ParameterPlan.replacedReads_ofReads _ _
  obtain ⟨n, -, access, span⟩ := exists_node_of_read laid (isMethod_of_find making.found)
    (Safety.validate_ok making.accepted) same (List.mem_filter.1 hr).1
  obtain ⟨_, _, _, _, isAttr, -⟩ := access.object
  obtain ⟨-, anchored, -⟩ := kept.anchored valid mem
  have inTree := (anchorOf_ok (kept.each h mem).2).1
  have beside := access_beside valid (tree ▸ access.mem) isAttr inTree anchored.starts
  have nonempty := (laid.node access.mem).here.nonempty
  rw [span] at beside nonempty
  exact ⟨nonempty, beside⟩

/-- At the place of a line of the method there are the lines of its statement. -/
lemma Making.functionEdits_at (hoisted : Hoisted (Workspace.ofSnapshot s roots) request plan done
      request.file home changed imported hoistings lines) {h : Hoisting} (mem : h ∈ lines)
    (inMethod : InMethod request target request.file h.stmt)
    (ahead : ParametersAhead plan target home.text.toList h) :
    (functionEdits request plan target home.text.toList done).filter
        (fun e => e.span == .point (h.place home.text.toList))
      = (ofStmt h.stmt lines).map fun x => (x.line home.text.toList).edit := by
  have bounds := making.line_inside ordered hoisted mem inMethod
  have line := Text.lineStart_le home.text.toList target.method.mark.span.start
  have ofParameters : (NewFunction.parameterEdits target.method.params
      plan.parameters.parameters plan.style).filter
        (fun e => e.span == .point (h.place home.text.toList)) = [] := by
    refine List.filter_eq_nil_iff.2 fun e he same => ?_
    have before := ahead e he
    rw [eq_of_beq same] at before
    exact before.false
  have ofReads : (NewFunction.readEdits plan.parameters
      (changesIn request.file home.text.toList target.method done.edits)).filter
        (fun e => e.span == .point (h.place home.text.toList)) = [] := by
    refine List.filter_eq_nil_iff.2 fun e he same => ?_
    have nonempty := (making.reads_beside ordered hoisted mem _ e he).1
    rw [eq_of_beq same] at nonempty
    exact nonempty.false
  rw [functionEdits, List.filter_append, List.filter_append, ofParameters, ofReads,
    List.nil_append, List.nil_append, changesIn, NewFunction.innerEdits, List.filter_filter,
    List.filter_filter, ← hoisted.edits_at mem]
  refine List.filter_congr fun e _ => ?_
  rw [Bool.eq_iff_iff, Bool.and_eq_true, Bool.and_eq_true, beq_iff_eq, Bool.and_eq_true,
    decide_eq_true_eq, decide_eq_true_eq]
  constructor
  · rintro ⟨⟨span, -⟩, inner⟩
    rw [isInner, Bool.and_eq_true, beq_iff_eq] at inner
    exact Edit.isAt_iff.2 ⟨inner.1, span⟩
  · intro at_
    have span := (Edit.isAt_iff.1 at_).2
    refine ⟨⟨span, ?_⟩, (making.isInner_line ordered hoisted mem at_).2 inMethod⟩
    rw [span]
    change _ ≤ h.place home.text.toList ∧ h.place home.text.toList ≤ _
    omega

/-- Nothing that the text of the function is made with begins between a line and its statement. -/
lemma Making.functionEdits_beside (hoisted : Hoisted (Workspace.ofSnapshot s roots) request plan
      done request.file home changed imported hoistings lines) {h : Hoisting} (mem : h ∈ lines)
    (ahead : ParametersAhead plan target home.text.toList h) :
    ∀ e ∈ functionEdits request plan target home.text.toList done,
      e.span.start < h.place home.text.toList ∨ e.span = .point (h.place home.text.toList)
        ∨ h.stmt.span.start ≤ e.span.start := by
  intro e he
  rcases List.mem_append.1 he with he | ofCall
  · rcases List.mem_append.1 he with ofParameter | ofRead
    · exact .inl (ahead e ofParameter)
    · exact (making.reads_beside ordered hoisted mem _ e ofRead).2.imp_right .inr
  · obtain ⟨known, inner⟩ := List.mem_filter.1 (List.mem_filter.1 ofCall).1
    rw [isInner, Bool.and_eq_true] at inner
    exact (hoisted.beside h mem).others e (hoisted.edits ▸ List.mem_filter.2 ⟨known, inner.1⟩)

/-- The lines of a statement of the method go into the text of the function, directly in front of
the statement. -/
theorem Making.lines_of_function (hoisted : Hoisted (Workspace.ofSnapshot s roots) request plan done
      request.file home changed imported hoistings lines) {h : Hoisting} (mem : h ∈ lines)
    (inMethod : InMethod request target request.file h.stmt)
    (ahead : ParametersAhead plan target home.text.toList h) :
    let base := Text.lineStart home.text.toList target.method.mark.span.start
    ∃ normal edited, plan.function.text
        = Text.dedent edited (target.method.mark.span.start - base)
      ∧ Edit.PutBefore (Text.slice home.text.toList ⟨base, target.method.mark.span.stop⟩) normal
        (.insert NewFunction.scratchFile (h.place home.text.toList - base)
          (assignments home.text.toList h.stmt lines)) (h.stmt.span.start - base)
        edited.toList := by
  intro base
  obtain ⟨-, tree, valid⟩ := Workspace.source_eq_ok ordered making.opened
  have stands : home.module.Placed home.text.toList := tree ▸ parse_placed home.text
  have kept := tree ▸ hoisted.kept
  have method := isMethod_of_find making.found
  have bounds := making.line_inside ordered hoisted mem inMethod
  have line : base ≤ target.method.mark.span.start := Text.lineStart_le _ _
  obtain ⟨normal, edited, normalized, applied, text⟩ := NewFunction.ofMethod_ok making.function
  change Edit.normalize ((functionEdits request plan target home.text.toList done).map
    (NewFunction.relative base)) = .ok normal at normalized
  obtain ⟨first, rest, shape, joined⟩ := kept.joined_assignments valid mem
  have texts : (((functionEdits request plan target home.text.toList done).map
      (NewFunction.relative base)).filter (Edit.isAt NewFunction.scratchFile
        (.point (h.place home.text.toList - base)))).map (·.text) = first :: rest := by
    rw [List.filter_map, NewFunction.isAt_comp_relative (by omega),
      making.functionEdits_at ordered hoisted mem inMethod ahead, List.map_map, List.map_map, ← shape]
    rfl
  have inserted := joined ▸ Edit.normalize_inserted normalized texts
  have placed : ∀ e ∈ normal, e.file = NewFunction.scratchFile
      ∧ (e.span.start < h.place home.text.toList - base
        ∨ e.span = .point (h.place home.text.toList - base)
        ∨ h.stmt.span.start - base ≤ e.span.start) := by
    intro e he
    obtain ⟨_, mapped, file, span⟩ := Edit.normalize_place normalized he
    obtain ⟨given, listed, rfl⟩ := List.mem_map.1 mapped
    refine ⟨file, ?_⟩
    rw [span]
    change given.span.start - base < _ ∨ Span.mk (given.span.start - base) (given.span.stop - base)
      = _ ∨ _ ≤ given.span.start - base
    rcases making.functionEdits_beside ordered hoisted mem ahead given listed with
      before | same | behind
    · exact .inl (by omega)
    · rw [same]
      exact .inr (.inl rfl)
    · exact .inr (.inr (by omega))
  have whole : (Text.sliceString home.text ⟨base, target.method.mark.span.stop⟩).toList
      = Text.slice home.text.toList ⟨base, target.method.mark.span.stop⟩ := String.toList_ofList
  refine ⟨normal, edited, text, whole ▸ (Edit.normalize_isNormal normalized).putBefore
    (fun e he => (placed e he).1) applied inserted ?_ (by omega) fun e he => (placed e he).2⟩
  have inTree : Text.Placed home.text.toList target.method.mark.span :=
    (stands.stmts _ method.mem_reachableStmts).here.span
  rw [whole]
  exact inTree.start.lineBeginning.boundary.in_slice
    (stands.stmts _ (anchorOf_ok (hoisted.kept.each h mem).2).1).here.span.start inTree.stop
    (by omega) (by omega)

end Made

/-! ## Plans -/

/-- Where the lines stand that keep the receivers of a statement. -/
structure LinesStand (w : Workspace) (request : LiftRequest) (plan : LiftPlan) (home : SourceFile)
    (target : LiftTarget) (file : String) (source : SourceFile) (lines : List Hoisting)
    (out : String) (h : Hoisting) : Prop where
  /-- Each line has the indentation of the statement. -/
  indented : ∀ x ∈ ofStmt h.stmt lines, (x.assignment source.text.toList).toList
    = Text.indentation source.text.toList h.stmt.span.start ++ (x.name.toList
      ++ ' ' :: '=' :: ' ' :: (x.written.toList ++ Text.lineBreak source.text.toList))
  /-- In a file, the lines come directly in front of what binds the name of the function, if that
  goes to the same place, and else directly in front of the statement. -/
  ofFile : ¬ InMethod request target file h.stmt → ImportApart w request file source h →
    ∃ own, (own = "" ∨ BindsAt w request plan home target file source
        (h.place source.text.toList) own)
      ∧ Edit.PutBefore source.text.toList (plan.edits.filter (·.file == file))
        (.insert file (h.place source.text.toList)
          (assignments source.text.toList h.stmt lines ++ own)) h.stmt.span.start out.toList
  /-- In the text of the function, the lines come directly in front of the statement. -/
  ofFunction : InMethod request target file h.stmt →
    ParametersAhead plan target source.text.toList h →
    let base := Text.lineStart source.text.toList target.method.mark.span.start
    ∃ normal edited, plan.function.text
        = Text.dedent edited (target.method.mark.span.start - base)
      ∧ Edit.PutBefore (Text.slice source.text.toList ⟨base, target.method.mark.span.stop⟩) normal
        (.insert NewFunction.scratchFile (h.place source.text.toList - base)
          (assignments source.text.toList h.stmt lines)) (h.stmt.span.start - base) edited.toList

/-- The lines that keep the receivers of a statement stand one behind the other and in front of the
statement, and nothing is put between but what binds the name of the function. -/
theorem temporaries_before_statement (files : List (String × String)) (roots : List String)
    (request : LiftRequest) (plan : LiftPlan)
    (ok : make (Workspace.ofSnapshot (Snapshot.ofList files) roots) request = .ok plan) :
    ∃ after home target, plan.commit (Snapshot.ofList files) = .ok after
      ∧ (Workspace.ofSnapshot (Snapshot.ofList files) roots).source request.file = .ok home
      ∧ LiftTarget.find home.module request.file request.className request.method = .ok target
      ∧ ∀ file source,
        (Workspace.ofSnapshot (Snapshot.ofList files) roots).source file = .ok source →
        ∃ changed hoistings lines out,
          ofSites source.module source.text (CallSite.ofModule file request.method source.module)
            (context request plan) (readsOf request plan file) = .ok changed
          ∧ Kept source.module source.text
            (CallSite.ofModule file request.method source.module) (context request plan) changed
            hoistings lines
          ∧ after.text? file = some out
          ∧ ∀ h ∈ lines, LinesStand (Workspace.ofSnapshot (Snapshot.ofList files) roots) request
            plan home target file source lines out h := by
  have ordered := Snapshot.ofList_ordered files
  obtain ⟨after, committed, changed⟩ := commit_ok ordered ok
  obtain ⟨normal, -⟩ := make_fits ordered ok
  obtain ⟨home, target, accepted, path, done, making⟩ := make_ok ok
  refine ⟨after, home, target, committed, making.opened, making.found, fun file source opened => ?_⟩
  obtain ⟨known, tree, valid⟩ := Workspace.source_eq_ok ordered opened
  obtain ⟨out, applied, is⟩ := (changed file).1 source.text known
  obtain ⟨changed, imported, hoistings, lines, hoisted⟩ := making.exists_hoisted ordered opened
  have kept := tree ▸ hoisted.kept
  refine ⟨changed, hoistings, lines, out, hoisted.ok, hoisted.kept, is, fun h mem => ⟨?_, ?_, ?_⟩⟩
  · intro x hx
    rw [Hoisting.toList_assignment, ((kept.mem_ofStmt valid mem).1 hx).2]
  · intro stays apart
    obtain ⟨own, binds, inserted⟩ := making.lines_inserted ordered hoisted mem stays
    refine ⟨own, binds, (normal.ofFile file).putBefore
      (fun e he => eq_of_beq (List.mem_filter.1 he).2) applied
      (List.mem_filter.2 ⟨inserted, beq_self_eq_true _⟩) ?_ (Text.lineStart_le _ _)
      (making.nothing_between ordered normal hoisted mem stays apart)⟩
    exact ((parse_sound source.text).1.stmts _
      (anchorOf_ok (kept.each h mem).2).1).here.span.start
  · intro inMethod ahead
    have here := inMethod.1
    subst here
    obtain rfl := Except.ok.inj (opened.symm.trans making.opened)
    exact making.lines_of_function ordered hoisted mem inMethod ahead

set_option maxRecDepth 100000 in
/-- A temporary in front of a statement that does not follow the class directly. -/
theorem temporary_before_call :
    let s := Snapshot.ofList [("a.py", "class A:\n def m(s):s.x,s.y\nf()\nget().m()\n")]
    let request : LiftRequest := ⟨"a.py", "A", "m", "tmp"⟩
    ∃ plan, make (Workspace.ofSnapshot s []) request = .ok plan
      ∧ plan.calls.map (·.temporary) = [some "tmp"]
      ∧ ∃ after home target, plan.commit s = .ok after
        ∧ (Workspace.ofSnapshot s []).source "a.py" = .ok home
        ∧ LiftTarget.find home.module "a.py" "A" "m" = .ok target
        ∧ ∃ changed hoistings lines out,
          ofSites home.module home.text (CallSite.ofModule "a.py" "m" home.module)
            (context request plan) (readsOf request plan "a.py") = .ok changed
          ∧ Kept home.module home.text (CallSite.ofModule "a.py" "m" home.module)
            (context request plan) changed hoistings lines
          ∧ after.text? "a.py" = some out
          ∧ ∀ h ∈ lines, LinesStand (Workspace.ofSnapshot s []) request plan home target "a.py" home
            lines out h := by
  intro s request
  have made : ∃ plan, make (Workspace.ofSnapshot s []) request = .ok plan := by
    refine exists_of_isOk ?_
    unfold s request
    simp only [makeComputed.eq, ofSnapshotComputed.eq]
    decide +kernel
  obtain ⟨plan, ok⟩ := made
  have temporary : (make (Workspace.ofSnapshot s []) request).toOption.map
      (·.calls.map (·.temporary)) = some [some "tmp"] := by
    unfold s request
    simp only [makeComputed.eq, ofSnapshotComputed.eq]
    decide +kernel
  rw [ok] at temporary
  obtain ⟨after, home, target, committed, opened, found, stand⟩ :=
    temporaries_before_statement _ _ _ plan ok
  exact ⟨plan, ok, Option.some.inj temporary, after, home, target, committed, opened, found,
    stand "a.py" home opened⟩

set_option maxRecDepth 100000 in
/-- A new import is put at the head of a file without imports, which is where the line of its first
statement begins, and so it comes between the temporary and that statement. -/
theorem import_between_temporary_and_statement :
    let s := Snapshot.ofList [("a.py", "class A:\n def m(s):s.x,s.y\n"), ("b.py", "f().m()\n")]
    let request : LiftRequest := ⟨"a.py", "A", "m", "t"⟩
    let edits : List Edit := [⟨"a.py", ⟨9, 27⟩, " pass\n"⟩,
      ⟨"a.py", ⟨27, 27⟩, "\n\ndef m(x, y):x,y\n"⟩, ⟨"b.py", ⟨0, 0⟩, "t = f()\nfrom a import m\n"⟩,
      ⟨"b.py", ⟨0, 5⟩, "m"⟩, ⟨"b.py", ⟨6, 6⟩, "t.x, t.y"⟩]
    let after := "t = f()\nfrom a import m\nm(t.x, t.y)\n"
    (make (Workspace.ofSnapshot s [""]) request).toOption.map (·.edits) = some edits
      ∧ (s.apply edits).toOption = some (Snapshot.ofList
        [("a.py", "class A:\n pass\n\n\ndef m(x, y):x,y\n"), ("b.py", after)]) := by
  intro s request edits after
  constructor
  · unfold s request edits
    simp only [makeComputed.eq, ofSnapshotComputed.eq]
    decide +kernel
  · unfold s edits after
    simp only [Snapshot.applyComputed.eq]
    decide +kernel

end LiftPlan

end MethodLift
