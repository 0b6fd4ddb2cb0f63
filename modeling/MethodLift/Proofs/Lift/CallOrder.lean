import MethodLift.Proofs.Lift.Frame
import MethodLift.Proofs.Lift.TemporaryLines

/-!
# Calls in front of what binds the function, and behind it

Edits keep the order of a text.  So a call of the function comes behind what binds its name if it stood
behind the place of the binding, and in front of it if it stood in front (`calls_behind_binding`).  A
call in the receiver of another call moves with it, but the new arguments that the receiver is written
in belong to a call on the same side.  Only a line with a temporary can come in front of the binding
although the call of the receiver stood behind its place: if the statement follows the place directly,
or if the line of the statement begins before it.

Calls that stood in front of the place come before the binding (`called_before_imported`).
-/

namespace MethodLift

open MethodLift.Syntax

namespace LiftPlan

open CallChanges

/-- A call of the method in a file is written by some edits, unless nothing of it is needed. -/
inductive WrittenBy (request : LiftRequest) (plan : LiftPlan) (file : String) (source : SourceFile)
    (lines : List Hoisting) (edits : List Edit) (site : CallSite) : Prop
  /-- The call is in a receiver, and there are no new parameters. -/
  | gone (gone : Gone (context request plan)
      (innermostFirst (CallSite.ofModule file request.method source.module)) site)
  /-- The call is written at its place, or in the new arguments of a call around it. -/
  | inEdit {e : Edit} (written : WrittenIn source.module source.text (context request plan)
      (readsOf request plan file)
      (innermostFirst (CallSite.ofModule file request.method source.module)) site e)
    (puts : Edit.Puts edits e)
  /-- The call is written on a line that keeps a receiver. -/
  | onLine {h : Hoisting} (mem : h ∈ lines)
    (kept : KeptIn source.module source.text (context request plan) (readsOf request plan file)
      (innermostFirst (CallSite.ofModule file request.method source.module)) site h)
    (puts : Edit.Puts edits (h.line source.text.toList).edit)

/-- A call is written on a line with a temporary that begins at an offset or in front of it. -/
def KeptAhead (request : LiftRequest) (plan : LiftPlan) (file : String) (source : SourceFile)
    (lines : List Hoisting) (offset : ℕ) (site : CallSite) : Prop :=
  ∃ h ∈ lines, KeptIn source.module source.text (context request plan) (readsOf request plan file)
      (innermostFirst (CallSite.ofModule file request.method source.module)) site h
    ∧ h.site.span.contains site.func.span = true ∧ h.place source.text.toList ≤ offset

/-- A call is in a call of the method that begins in front of a span and ends behind it. -/
def InCallOver (request : LiftRequest) (file : String) (source : SourceFile) (span : Span)
    (site : CallSite) : Prop :=
  ∃ around ∈ CallSite.ofModule file request.method source.module,
    around.span.contains site.func.span = true ∧ around.span.start < span.start
      ∧ span.stop < around.span.stop

/-- An import of the name stays as it is, and each call of the method is written on the side of it
that the call was on. -/
structure ImportStays (request : LiftRequest) (plan : LiftPlan) (file : String) (source : SourceFile)
    (lines : List Hoisting) (stmt : Stmt) (before behind : List Edit) (out : List Char) : Prop where
  around : Edit.Around source.text.toList stmt.span before behind
    (plan.edits.filter (·.file == file)) (Text.slice source.text.toList stmt.span) out
  later : ∀ site ∈ CallSite.ofModule file request.method source.module,
    stmt.span.stop ≤ site.func.span.start → WrittenBy request plan file source lines behind site
  earlier : ∀ site ∈ CallSite.ofModule file request.method source.module,
    site.func.span.stop ≤ stmt.span.start → WrittenBy request plan file source lines before site

/-- What binds the name is put at a place, and each call of the method is written on the side of it
that the call was on. -/
structure Binding (request : LiftRequest) (plan : LiftPlan) (method : Span) (file : String)
    (source : SourceFile) (lines : List Hoisting) (place : ℕ) (put : String)
    (before behind : List Edit) (out : List Char) : Prop where
  around : Edit.Around source.text.toList (.point place) before behind
    (plan.edits.filter (·.file == file)) put.toList out
  /-- Only lines with temporaries come in front of the binding although their calls do not. -/
  later : ∀ site ∈ CallSite.ofModule file request.method source.module,
    place ≤ site.func.span.start → WrittenBy request plan file source lines behind site
      ∨ KeptAhead request plan file source lines place site
  /-- Calls in the method leave with it, and a place in a call is on no side of it. -/
  earlier : ∀ site ∈ CallSite.ofModule file request.method source.module,
    site.func.span.stop ≤ place → ¬ InCallOver request file source (.point place) site →
      ¬ (file = request.file ∧ method.contains site.func.span = true) →
      WrittenBy request plan file source lines before site

/-- The tree has the import. -/
lemma Imported.reachable {w : Workspace} {request : LiftRequest} {plan : LiftPlan} {file : String}
    {source : SourceFile} {stmt : Stmt}
    (known : Imported w request plan file source stmt) : stmt ∈ source.module.reachableStmts :=
  Module.stmt_mem_nodes.1
    (List.mem_flatMap.2 ⟨_, List.mem_map_of_mem known.inBody, Node.self_mem_all _⟩)

/-! ## The sides of a span -/

section Made

variable {s : Snapshot} {roots : List String} {request : LiftRequest} {plan : LiftPlan}
  {home : SourceFile} {target : LiftTarget} {accepted : List AttributeRead} {path : Option String}
  {done : Progress} {source : SourceFile} {file : String}
  (making : Making (Workspace.ofSnapshot s roots) request plan home target accepted path done)
  {changed : CallChanges} {imported : Option Edit} {hoistings lines : List Hoisting}
  (hoisted : Hoisted (Workspace.ofSnapshot s roots) request plan done file source changed imported
    hoistings lines)
  {site : CallSite} {e : Edit}
include making hoisted

/-- What the calls of a file put somewhere else than in the method, the plan puts there. -/
lemma Making.puts (he : e ∈ changed.edits) (outer : isInner request.file target.method e ≠ true) :
    Edit.Puts (plan.edits.filter (·.file == file)) e := by
  rw [← hoisted.edits] at he
  obtain ⟨listed, inFile⟩ := List.mem_filter.1 he
  obtain ⟨x, hx, same, inside⟩ := Edit.normalize_puts making.edits (List.mem_append_left _
    (List.mem_append_left _ (List.mem_filter.2 ⟨listed, by rw [Bool.eq_false_iff.2 outer]; rfl⟩)))
  refine ⟨x, List.mem_filter.2 ⟨hx, ?_⟩, same, inside⟩
  rw [same.1]
  exact inFile

/-- In a file that imports the name already, only its calls are changed. -/
lemma Making.only_calls_change {stmt : Stmt}
    (known : Imported (Workspace.ofSnapshot s roots) request plan file source stmt) :
    ∀ e ∈ plan.edits.filter (·.file == file), ∃ given ∈ changed.edits, e.span = given.span := by
  obtain ⟨other, inBody, p, mark, names, named, rfl, plain⟩ := known
  have none : imported = none := by
    rcases hoisted.ensured with none | ⟨p', named', -, ensured⟩
    · exact none
    obtain rfl := Option.some.inj (named.symm.trans named')
    have present := Import.any_isPlain_iff.2 ⟨mark, names, inBody, plain⟩
    unfold Import.ensure at ensured
    rw [if_pos present] at ensured
    exact (Except.ok.inj ensured).symm
  intro e he
  obtain ⟨he, inFile⟩ := List.mem_filter.1 he
  obtain ⟨given, listed, same, span⟩ := Edit.normalize_place making.edits he
  refine ⟨given, ?_, span⟩
  rw [same] at inFile
  rcases List.mem_append.1 listed with listed | ofImport
  · rcases List.mem_append.1 listed with ofCall | moved
    · rw [← hoisted.edits]
      exact List.mem_filter.2 ⟨(List.mem_filter.1 ofCall).1, inFile⟩
    · refine absurd ((eq_of_beq inFile).symm.trans ?_) other
      rcases List.mem_cons.1 moved with rfl | moved
      · exact Lift.removal_file _ _
      · rw [List.mem_singleton.1 moved]
        rfl
  · have alone : given ∈ done.imports.edits.filter (·.file == file) :=
      List.mem_filter.2 ⟨ofImport, inFile⟩
    rw [hoisted.imports, none] at alone
    cases alone

variable (ordered : Snapshot.Ordered s.files)
include ordered

/-- An edit that a call outside of the method is written in does not go into the function. -/
lemma Making.carrier_outer (hs : site ∈ CallSite.ofModule file request.method source.module)
    (outside : ¬ (file = request.file ∧ target.method.mark.span.contains site.func.span = true))
    (he : e ∈ changed.edits)
    (carrier : Carrier (context request plan)
      (innermostFirst (CallSite.ofModule file request.method source.module)) site e) :
    isInner request.file target.method e ≠ true := by
  intro inner
  rw [isInner, Bool.and_eq_true, beq_iff_eq] at inner
  obtain ⟨inHome, inMethod⟩ := inner
  obtain ⟨-, inFile⟩ := List.mem_filter.1 (hoisted.edits ▸ he)
  have here : file = request.file := (eq_of_beq inFile).symm.trans inHome
  cases carrier with
  | callee is =>
    rw [is] at inMethod
    exact outside ⟨here, inMethod⟩
  | @argument around mem span inside =>
    refine outside ⟨here, ?_⟩
    subst here
    obtain rfl := Except.ok.inj (hoisted.opened.symm.trans making.opened)
    obtain ⟨-, tree, valid⟩ := Workspace.source_eq_ok ordered hoisted.opened
    have laid : source.module.Laid := tree ▸ parse_laid valid
    obtain ⟨-, receiver, stands⟩ := CallSite.ofModule_stands laid (List.mem_mergeSort.1 mem)
    have framed := (tree ▸ stands).framed valid
    have place := framed.place (fun a ha => stands.value_nonempty laid ha) around.place_spec
    have begins := stands.start_le laid
    have some := stands.callee_nonempty laid
    have inTree := Module.stmt_mem_nodes.2 (isMethod_of_find making.found).mem_reachableStmts
    rw [span, Span.contains_iff] at inMethod
    change target.method.mark.span.start ≤ around.place
      ∧ around.place ≤ target.method.mark.span.stop at inMethod
    rcases laid.nested_or_apart inTree stands.call with (inBody | within) | before | behind
    · exact Span.contains_trans
        (Span.contains_iff.2 ((laid.node inTree).descendant inBody).2) inside
    · obtain ⟨_, isExpr⟩ := Node.exists_expr?_of_mem_all
        (Node.expr?_read (.call around.mark around.func around.args)) within
      cases isExpr
    · change target.method.mark.span.stop ≤ around.span.start at before
      omega
    · change around.span.stop ≤ target.method.mark.span.start at behind
      omega

/-- A line that a call outside of the method is written on does not go into the function. -/
lemma Making.line_outer {h : Hoisting} (mem : h ∈ lines)
    (outside : ¬ (file = request.file ∧ target.method.mark.span.contains site.func.span = true))
    (inside : h.site.span.contains site.func.span = true)
    (he : (h.line source.text.toList).edit ∈ changed.edits) :
    isInner request.file target.method (h.line source.text.toList).edit ≠ true := by
  intro inner
  obtain ⟨-, inFile⟩ := List.mem_filter.1 (hoisted.edits ▸ he)
  have inMethod := (making.isInner_line ordered hoisted mem
    (Edit.isAt_iff.2 ⟨eq_of_beq inFile, rfl⟩)).1 inner
  refine outside ⟨inMethod.1, ?_⟩
  obtain ⟨here, inBody⟩ := inMethod
  subst here
  obtain rfl := Except.ok.inj (hoisted.opened.symm.trans making.opened)
  obtain ⟨-, tree, valid⟩ := Workspace.source_eq_ok ordered hoisted.opened
  have laid : source.module.Laid := tree ▸ parse_laid valid
  have inTree := Module.stmt_mem_nodes.2 (isMethod_of_find making.found).mem_reachableStmts
  have inMethod : target.method.mark.span.contains h.stmt.span = true :=
    Span.contains_iff.2 ((laid.node inTree).descendant inBody).2
  have ends := (tree ▸ hoisted.kept).site_inside valid mem
  have inStmt : h.stmt.span.contains h.site.span = true :=
    Span.contains_iff.2 ⟨ends.1, ends.2.2⟩
  exact Span.contains_trans inMethod (Span.contains_trans inStmt inside)

variable {span : Span} {before behind : List Edit} {put out : List Char}
  (around : Edit.Around source.text.toList span before behind
    (plan.edits.filter (·.file == file)) put out) (forward : span.start ≤ span.stop)
include around forward

/-- A call that is written in an edit is on the side of a span that it was on. -/
lemma Making.sides_of_edit (hs : site ∈ CallSite.ofModule file request.method source.module)
    (outside : ¬ (file = request.file ∧ target.method.mark.span.contains site.func.span = true))
    (he : e ∈ changed.edits)
    (carrier : Carrier (context request plan)
      (innermostFirst (CallSite.ofModule file request.method source.module)) site e) :
    (span.stop ≤ site.func.span.start → Edit.Puts behind e)
      ∧ (site.func.span.stop ≤ span.start → Edit.Puts before e
        ∨ InCallOver request file source span site) := by
  obtain ⟨-, tree, valid⟩ := Workspace.source_eq_ok ordered hoisted.opened
  have laid : source.module.Laid := tree ▸ parse_laid valid
  obtain ⟨-, _, stands⟩ := CallSite.ofModule_stands laid hs
  have some := stands.callee_nonempty laid
  have side := around.cases_of_puts
    (making.puts hoisted he (making.carrier_outer hoisted ordered hs outside he carrier))
  cases carrier with
  | callee is =>
    have place : e.span = site.func.span := by rw [is]; rfl
    rw [place] at side
    constructor
    · intro later
      rcases side with ⟨-, stop⟩ | ⟨puts, -⟩ | ⟨same, -⟩
      · omega
      · exact puts
      · rw [same] at some later
        omega
    · intro earlier
      rcases side with ⟨puts, -⟩ | ⟨-, start⟩ | ⟨same, -⟩
      · exact .inl puts
      · omega
      · rw [same] at some earlier
        omega
  | @argument other listed place inside ends =>
    have known := List.mem_mergeSort.1 listed
    obtain ⟨-, _, atOther⟩ := CallSite.ofModule_stands laid known
    have framed := (tree ▸ atOther).framed valid
    have bounds := framed.place (fun a ha => atOther.value_nonempty laid ha) other.place_spec
    have within := Span.contains_iff.1 inside
    -- if the arguments are not put in front of the span, the call around reaches over it
    have reaches (earlier : site.func.span.stop ≤ span.start) (stop : span.stop ≤ other.place) :
        InCallOver request file source span site :=
      ⟨other, known, inside, by omega, by omega⟩
    rw [place] at side
    rcases side with ⟨puts, stop⟩ | ⟨puts, start⟩ | ⟨same, -⟩
    · change other.place ≤ span.start at stop
      exact ⟨fun later => by omega, fun _ => .inl puts⟩
    · exact ⟨fun _ => puts, fun earlier => .inr (reaches earlier start)⟩
    · have stop : span.stop = other.place := by rw [← same]; rfl
      exact ⟨fun later => by omega, fun earlier => .inr (reaches earlier stop.le)⟩

/-- A call that is written on a line is on the side of a span that it was on, unless the line begins
at the span or in front of it. -/
lemma Making.sides_of_line {h : Hoisting} (mem : h ∈ lines)
    (outside : ¬ (file = request.file ∧ target.method.mark.span.contains site.func.span = true))
    (nonempty : site.func.span.start < site.func.span.stop)
    (inside : h.site.span.contains site.func.span = true) :
    (span.stop ≤ site.func.span.start → Edit.Puts behind (h.line source.text.toList).edit
        ∨ h.place source.text.toList ≤ span.start)
      ∧ (site.func.span.stop ≤ span.start →
        Edit.Puts before (h.line source.text.toList).edit) := by
  obtain ⟨-, tree, valid⟩ := Workspace.source_eq_ok ordered hoisted.opened
  have listed : (h.line source.text.toList).edit ∈ changed.edits := by
    obtain ⟨others, edits⟩ := hoisted.kept.edits
    rw [edits]
    exact List.mem_append_left _ (List.mem_map_of_mem mem)
  have side := around.cases_of_puts (making.puts hoisted listed
    (making.line_outer hoisted ordered mem outside inside listed))
  change _ ∧ h.place source.text.toList ≤ span.start
    ∨ _ ∧ span.stop ≤ h.place source.text.toList ∨ _ at side
  have line := Text.lineStart_le source.text.toList h.stmt.span.start
  change h.place source.text.toList ≤ _ at line
  have inStmt := (tree ▸ hoisted.kept).site_inside valid mem
  have within := Span.contains_iff.1 inside
  rcases side with ⟨puts, ahead⟩ | ⟨puts, start⟩ | ⟨same, -⟩
  · exact ⟨fun _ => .inr ahead, fun _ => puts⟩
  · exact ⟨fun _ => .inl puts, fun earlier => by omega⟩
  · have start : span.start = h.place source.text.toList := by rw [← same]; rfl
    exact ⟨fun _ => .inr start.ge, fun earlier => by omega⟩

/-- What a call outside of the method becomes is on the side of a span that the call was on. -/
theorem Making.sides (hs : site ∈ CallSite.ofModule file request.method source.module)
    (outside : ¬ (file = request.file ∧ target.method.mark.span.contains site.func.span = true)) :
    (span.stop ≤ site.func.span.start → WrittenBy request plan file source lines behind site
      ∨ KeptAhead request plan file source lines span.start site)
    ∧ (site.func.span.stop ≤ span.start → WrittenBy request plan file source lines before site
      ∨ InCallOver request file source span site) := by
  cases hoisted.comes site hs with
  | gone gone => exact ⟨fun _ => .inl (.gone gone), fun _ => .inl (.gone gone)⟩
  | inEdit mem written carrier =>
    obtain ⟨later, earlier⟩ :=
      making.sides_of_edit hoisted ordered around forward hs outside mem carrier
    exact ⟨fun is => .inl (.inEdit written (later is)),
      fun is => (earlier is).imp_left (.inEdit written)⟩
  | @onLine h mem kept inside =>
    obtain ⟨-, tree, valid⟩ := Workspace.source_eq_ok ordered hoisted.opened
    have laid : source.module.Laid := tree ▸ parse_laid valid
    obtain ⟨-, _, stands⟩ := CallSite.ofModule_stands laid hs
    obtain ⟨later, earlier⟩ := making.sides_of_line hoisted ordered around forward mem outside
      (stands.callee_nonempty laid) inside
    exact ⟨fun is => (later is).imp (.onLine mem kept) fun ahead => ⟨h, mem, kept, inside, ahead⟩,
      fun is => .inl (.onLine mem kept (earlier is))⟩

omit around forward

/-! ## An import that is there already -/

/-- No edit touches an import of the name. -/
lemma Making.import_untouched {stmt : Stmt}
    (known : Imported (Workspace.ofSnapshot s roots) request plan file source stmt) :
    ∀ e ∈ plan.edits.filter (·.file == file),
      e.span.stop ≤ stmt.span.start ∨ stmt.span.stop ≤ e.span.start := by
  have inTree := known.reachable
  obtain ⟨-, tree, valid⟩ := Workspace.source_eq_ok ordered hoisted.opened
  have laid : source.module.Laid := tree ▸ parse_laid valid
  intro e he
  obtain ⟨given, ofCalls, span⟩ := making.only_calls_change hoisted known e he
  obtain ⟨-, -, p, mark, names, -, rfl, -⟩ := known
  rw [span]
  rcases edits_placed (innermostFirst_inOrder file request.method (parse_laid valid)).stands
    (tree ▸ hoisted.ok) given ofCalls with
    ⟨site, receiver, stands, arguments, own⟩ | ⟨site, stmt, anchored, place⟩
  · have framed := stands.framed valid
    have stands := tree ▸ stands
    have inside := stands.changes_inside laid framed (ownEdits_changes framed _ _ _ _ own)
    have begins := stands.start_le laid
    rcases laid.beside_import inTree stands.call with around | before | behind
    · obtain ⟨_, isExpr⟩ := Node.exists_expr?_of_mem_all
        (Node.expr?_read (.call site.mark site.func site.args)) around
      cases isExpr
    · change site.span.stop ≤ mark.span.start at before
      exact .inl (by change _ ≤ mark.span.start; omega)
    · change mark.span.stop ≤ site.span.start at behind
      exact .inr (by change mark.span.stop ≤ _; omega)
  · -- the line of a temporary begins where that of a statement does
    obtain ⟨hs, starts⟩ := anchorOf_ok anchored
    have node := laid.node (Module.stmt_mem_nodes.2 (tree ▸ hs))
    have line := Text.lineStart_le source.text.toList stmt.span.start
    rw [place]
    change Text.lineStart _ _ ≤ mark.span.start ∨ mark.span.stop ≤ Text.lineStart _ _
    rcases laid.beside_import inTree (Module.stmt_mem_nodes.2 (tree ▸ hs)) with
      around | before | behind
    · have inside := (node.descendant around).2.1
      change stmt.span.start ≤ mark.span.start at inside
      exact .inl (line.trans inside)
    · have nonempty := node.here.nonempty
      change stmt.span.stop ≤ mark.span.start at before
      change stmt.span.start < stmt.span.stop at nonempty
      exact .inl (by omega)
    · exact .inr (import_stop_le_lineStart valid (tree ▸ inTree) hs starts behind)

omit making in
/-- A call behind an import is on no line that begins in front of it. -/
lemma Imported.not_keptAhead {stmt : Stmt}
    (known : Imported (Workspace.ofSnapshot s roots) request plan file source stmt)
    (hs : site ∈ CallSite.ofModule file request.method source.module)
    (later : stmt.span.stop ≤ site.func.span.start) :
    ¬ KeptAhead request plan file source lines stmt.span.start site := by
  rintro ⟨h, mem, -, inside, line⟩
  have inTree := known.reachable
  obtain ⟨-, -, p, mark, names, -, rfl, -⟩ := known
  obtain ⟨-, tree, valid⟩ := Workspace.source_eq_ok ordered hoisted.opened
  have laid : source.module.Laid := tree ▸ parse_laid valid
  obtain ⟨-, _, stands⟩ := CallSite.ofModule_stands laid hs
  have filled := stands.callee_nonempty laid
  have kept := tree ▸ hoisted.kept
  obtain ⟨-, anchored, root, way⟩ := kept.anchored valid mem
  have inStmt := kept.site_inside valid mem
  have within := Span.contains_iff.1 inside
  have nonempty := (laid.node (Module.stmt_mem_nodes.2 inTree)).here.nonempty
  change mark.span.start < mark.span.stop at nonempty
  change mark.span.stop ≤ _ at later
  change _ ≤ mark.span.start at line
  rcases laid.beside_import inTree (Module.stmt_mem_nodes.2 (tree ▸ way.inTree)) with
    around | before | behind
  · by_cases same : h.stmt = .importFrom mark (some p) 0 names false
    · rw [same] at inStmt
      change mark.span.start ≤ _ ∧ _ ∧ _ ≤ mark.span.stop at inStmt
      omega
    · have ends := way.call_before_inner (tree ▸ laid) anchored.header around (Ne.symm same)
      change _ ≤ mark.span.start at ends
      omega
  · change h.stmt.span.stop ≤ mark.span.start at before
    omega
  · have stop := import_stop_le_lineStart valid (tree ▸ inTree) way.inTree anchored.starts behind
    change mark.span.stop ≤ h.place source.text.toList at stop
    omega

omit making in
/-- No call reaches over an import. -/
lemma Imported.not_inCallOver {stmt : Stmt}
    (known : Imported (Workspace.ofSnapshot s roots) request plan file source stmt) :
    ¬ InCallOver request file source stmt.span site := by
  rintro ⟨around, mem, -, front, back⟩
  have inTree := known.reachable
  obtain ⟨-, -, p, mark, names, -, rfl, -⟩ := known
  obtain ⟨-, tree, valid⟩ := Workspace.source_eq_ok ordered hoisted.opened
  have laid : source.module.Laid := tree ▸ parse_laid valid
  obtain ⟨-, _, stands⟩ := CallSite.ofModule_stands laid mem
  have nonempty := (laid.node (Module.stmt_mem_nodes.2 inTree)).here.nonempty
  change mark.span.start < mark.span.stop at nonempty
  change _ < mark.span.start at front
  change mark.span.stop < _ at back
  rcases laid.beside_import inTree stands.call with inside | before | behind
  · obtain ⟨_, isExpr⟩ := Node.exists_expr?_of_mem_all
      (Node.expr?_read (.call around.mark around.func around.args)) inside
    cases isExpr
  · change around.span.stop ≤ mark.span.start at before
    omega
  · change mark.span.stop ≤ around.span.start at behind
    omega

/-- An import of the name stays, and the calls stay on their sides of it. -/
theorem Making.import_stays {stmt : Stmt} {out : String} (normal : Edit.IsNormal plan.edits)
    (known : Imported (Workspace.ofSnapshot s roots) request plan file source stmt)
    (applied : Edit.apply source.text (plan.edits.filter (·.file == file)) = .ok out) :
    ∃ before behind, ImportStays request plan file source lines stmt before behind out.toList := by
  obtain ⟨-, tree, valid⟩ := Workspace.source_eq_ok ordered hoisted.opened
  have laid : source.module.Laid := tree ▸ parse_laid valid
  have stands : source.module.Placed source.text.toList := tree ▸ parse_placed source.text
  have nonempty := (laid.node (Module.stmt_mem_nodes.2 known.reachable)).here.nonempty
  obtain ⟨before, behind, around⟩ := (normal.ofFile file).around_kept
    (fun e he => eq_of_beq (List.mem_filter.1 he).2) applied
    (stands.stmts _ known.reachable).here.span nonempty
    (making.import_untouched hoisted ordered known)
  have sides {site : CallSite} (hs : site ∈ CallSite.ofModule file request.method source.module) :=
    making.sides hoisted ordered around nonempty.le hs fun inMethod => known.other inMethod.1
  refine ⟨before, behind, around, fun site hs later => ?_, fun site hs earlier => ?_⟩
  · exact ((sides hs).1 later).resolve_right
      (known.not_keptAhead hoisted ordered hs later)
  · exact ((sides hs).2 earlier).resolve_right
      (known.not_inCallOver hoisted ordered)

/-! ## A binding that is put in -/

omit hoisted in
/-- The method ends in front of where the function is put. -/
lemma Making.method_before_binding {place : ℕ} {binding : String} (here : file = request.file)
    (binds : BindsAt (Workspace.ofSnapshot s roots) request plan home target file source place
      binding) : target.method.mark.span.stop ≤ place := by
  cases binds with
  | function =>
    obtain ⟨around, -⟩ := making.around_contains ordered
    exact (Span.contains_iff.1 around).2.trans (Text.le_lineEnd _ _)
  | extended other => exact absurd here other
  | added other => exact absurd here other

/-- What binds the name is put in, and the calls stay on their sides of it. -/
theorem Making.binding_put {place : ℕ} {binding more out : String}
    (normal : Edit.IsNormal plan.edits)
    (binds : BindsAt (Workspace.ofSnapshot s roots) request plan home target file source place
      binding)
    (listed : Edit.insert file place (more ++ binding) ∈ plan.edits)
    (applied : Edit.apply source.text (plan.edits.filter (·.file == file)) = .ok out) :
    ∃ before behind, Binding request plan target.method.mark.span file source lines place
      (more ++ binding) before behind out.toList := by
  obtain ⟨-, tree, valid⟩ := Workspace.source_eq_ok ordered hoisted.opened
  have laid : source.module.Laid := tree ▸ parse_laid valid
  obtain ⟨before, behind, around⟩ := (normal.ofFile file).around_edited
    (fun e he => eq_of_beq (List.mem_filter.1 he).2) applied
    (List.mem_filter.2 ⟨listed, beq_self_eq_true _⟩)
  have sides {site : CallSite} (hs : site ∈ CallSite.ofModule file request.method source.module) :=
    making.sides hoisted ordered around (Nat.le_refl place) hs
  refine ⟨before, behind, around, fun site hs later => ?_, fun site hs earlier apart outside => ?_⟩
  · refine (sides hs fun ⟨here, inMethod⟩ => ?_).1 later
    obtain ⟨-, _, stands⟩ := CallSite.ofModule_stands laid hs
    have some := stands.callee_nonempty laid
    have stop := making.method_before_binding ordered here binds
    have inMethod := Span.contains_iff.1 inMethod
    omega
  · exact ((sides hs outside).2 earlier).resolve_right apart

end Made

/-! ## Plans -/

/-- In every file that calls the function, what binds its name is there already or is put in, and a
call comes behind it if it stood behind the place of it, and in front if it stood in front. -/
theorem calls_behind_binding (files : List (String × String)) (roots : List String)
    (request : LiftRequest) (plan : LiftPlan)
    (ok : make (Workspace.ofSnapshot (Snapshot.ofList files) roots) request = .ok plan) :
    ∃ after home target, plan.commit (Snapshot.ofList files) = .ok after
      ∧ (Workspace.ofSnapshot (Snapshot.ofList files) roots).source request.file = .ok home
      ∧ LiftTarget.find home.module request.file request.className request.method = .ok target
      ∧ ∀ file source,
        (Workspace.ofSnapshot (Snapshot.ofList files) roots).source file = .ok source →
        file = request.file ∨ CallSite.ofModule file request.method source.module ≠ [] →
        ∃ out changed hoistings lines before behind, after.text? file = some out
          ∧ ofSites source.module source.text
            (CallSite.ofModule file request.method source.module) (context request plan)
            (readsOf request plan file) = .ok changed
          ∧ Kept source.module source.text (CallSite.ofModule file request.method source.module)
            (context request plan) changed hoistings lines
          ∧ ((∃ stmt, Imported (Workspace.ofSnapshot (Snapshot.ofList files) roots) request plan
                file source stmt
              ∧ ImportStays request plan file source lines stmt before behind out.toList)
            ∨ ∃ place binding more,
              BindsAt (Workspace.ofSnapshot (Snapshot.ofList files) roots) request plan home target
                file source place binding
              ∧ Binding request plan target.method.mark.span file source lines place
                (more ++ binding) before behind out.toList) := by
  have ordered := Snapshot.ofList_ordered files
  obtain ⟨after, committed, changed⟩ := commit_ok ordered ok
  obtain ⟨normal, -⟩ := make_fits ordered ok
  obtain ⟨home, target, accepted, path, done, making⟩ := make_ok ok
  refine ⟨after, home, target, committed, making.opened, making.found,
    fun file source opened calls => ?_⟩
  obtain ⟨known, -⟩ := Workspace.source_eq_ok ordered opened
  obtain ⟨out, applied, is⟩ := (changed file).1 source.text known
  obtain ⟨changed, imported, hoistings, lines, hoisted⟩ := making.exists_hoisted ordered opened
  rcases making.binding ordered opened calls with ⟨stmt, known⟩ | ⟨place, binding, more, binds, mem⟩
  · obtain ⟨before, behind, stays⟩ := making.import_stays hoisted ordered normal known applied
    exact ⟨out, changed, hoistings, lines, before, behind, is, hoisted.ok, hoisted.kept,
      .inl ⟨stmt, known, stays⟩⟩
  · obtain ⟨before, behind, put⟩ := making.binding_put hoisted ordered normal binds mem applied
    exact ⟨out, changed, hoistings, lines, before, behind, is, hoisted.ok, hoisted.kept,
      .inr ⟨place, binding, more, binds, put⟩⟩

set_option maxRecDepth 100000 in
/-- A call behind the class. -/
theorem call_behind_definition :
    let s := Snapshot.ofList [("a.py", "class A:\n def m(s):0\na.m()\n")]
    let request : LiftRequest := ⟨"a.py", "A", "m", "t"⟩
    ∃ plan, make (Workspace.ofSnapshot s []) request = .ok plan
      ∧ ∃ after home target, plan.commit s = .ok after
        ∧ (Workspace.ofSnapshot s []).source "a.py" = .ok home
        ∧ LiftTarget.find home.module "a.py" "A" "m" = .ok target
        ∧ ∃ out changed hoistings lines before behind, after.text? "a.py" = some out
          ∧ ofSites home.module home.text (CallSite.ofModule "a.py" "m" home.module)
            (context request plan) (readsOf request plan "a.py") = .ok changed
          ∧ Kept home.module home.text (CallSite.ofModule "a.py" "m" home.module)
            (context request plan) changed hoistings lines
          ∧ ((∃ stmt, Imported (Workspace.ofSnapshot s []) request plan "a.py" home stmt
              ∧ ImportStays request plan "a.py" home lines stmt before behind out.toList)
            ∨ ∃ place binding more,
              BindsAt (Workspace.ofSnapshot s []) request plan home target "a.py" home place binding
              ∧ Binding request plan target.method.mark.span "a.py" home lines place
                (more ++ binding) before behind out.toList) := by
  intro s request
  have made : ∃ plan, make (Workspace.ofSnapshot s []) request = .ok plan := by
    refine exists_of_isOk ?_
    unfold s request
    simp only [makeComputed.eq, ofSnapshotComputed.eq]
    decide +kernel
  obtain ⟨plan, ok⟩ := made
  obtain ⟨after, home, target, committed, opened, found, binding⟩ :=
    calls_behind_binding _ _ _ plan ok
  exact ⟨plan, ok, after, home, target, committed, opened, found,
    binding "a.py" home opened (.inl rfl)⟩

set_option maxRecDepth 100000 in
/-- A call in front of the import that takes the name up. -/
theorem called_before_imported :
    let s := Snapshot.ofList [("a.py", "class A:\n def m(s):0\n"),
      ("b.py", "import a\na.A().m()\nfrom a import A\n")]
    let edits : List Edit := [⟨"a.py", ⟨9, 21⟩, " pass\n"⟩, ⟨"a.py", ⟨21, 21⟩, "\n\ndef m():0\n"⟩,
      ⟨"b.py", ⟨9, 16⟩, "m"⟩, ⟨"b.py", ⟨34, 34⟩, ", m"⟩]
    let after := "import a\nm()\nfrom a import A, m\n"
    (make (Workspace.ofSnapshot s [""]) ⟨"a.py", "A", "m", "t"⟩).toOption.map (·.edits)
        = some edits
      ∧ (s.apply edits).toOption
        = some (Snapshot.ofList [("a.py", "class A:\n pass\n\n\ndef m():0\n"), ("b.py", after)])
      ∧ (parse after).module.body.map (fun
        | .expr _ (.call _ (.name _ name _) _) => [name]
        | .importFrom _ _ _ names _ => names.map (·.boundName)
        | _ => []) = [[], ["m"], ["A", "m"]] := by
  intro s edits after
  refine ⟨?_, ?_, ?_⟩
  · unfold s edits
    simp only [makeComputed.eq, ofSnapshotComputed.eq]
    decide +kernel
  · unfold s edits after
    simp only [Snapshot.applyComputed.eq]
    decide +kernel
  · unfold after
    simp only [parseComputed.eq]
    decide +kernel

end LiftPlan

end MethodLift
