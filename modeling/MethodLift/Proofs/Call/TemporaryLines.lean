import MethodLift.Proofs.Call.Anchors
import MethodLift.Proofs.Call.Carriers
import MethodLift.Proofs.Call.Landing
import MethodLift.Proofs.Edit.Places
import MethodLift.Proofs.Scope.Methods
import MethodLift.Proofs.Syntax.EvaluationOrder
import MethodLift.Proofs.Syntax.LineStarts

/-!
# The lines before a statement

The receivers that are kept before a statement are kept on lines that begin where the line of the
statement begins.  Nothing else is changed there, and no other change of a call begins between that
place and the statement (`Kept.beside`).  No two statements have their lines at one place
(`Kept.same_stmt_of_place`), and the lines differ from their first words on, so they are put together
as they are (`Kept.joined_assignments`).
-/

namespace MethodLift

open MethodLift.Syntax

namespace Hoisting

/-- Where the line of the statement begins, which is where the line of the temporary is put. -/
def place (source : List Char) (h : Hoisting) : ℕ := Text.lineStart source h.stmt.span.start

/-- The text of the line. -/
def assignment (source : List Char) (h : Hoisting) : String := (h.line source).edit.text

/-- The receivers among some that are kept before a statement. -/
def ofStmt (stmt : Stmt) (lines : List Hoisting) : List Hoisting :=
  lines.filter (·.stmt.serial == stmt.serial)

/-- The lines of a statement, one behind the other. -/
def assignments (source : List Char) (stmt : Stmt) (lines : List Hoisting) : String :=
  String.join ((ofStmt stmt lines).map (·.assignment source))

variable {source : List Char} {a b : Hoisting}

lemma line_edit (source : List Char) (h : Hoisting) : (h.line source).edit
    = .insert h.site.file (h.place source) (h.assignment source) := rfl

lemma toList_assignment (source : List Char) (h : Hoisting) : (h.assignment source).toList
    = Text.indentation source h.stmt.span.start ++ (h.name.toList
      ++ ' ' :: '=' :: ' ' :: (h.written.toList ++ Text.lineBreak source)) := by
  simp [assignment, line, CallChanges.temporaryLine, Edit.insert]

/-- Lines at one place that assign to different temporaries differ from their first words on. -/
lemma not_prefix_of_name_ne {base : List Char} (same : a.place source = b.place source)
    (numbered : ∀ h ∈ [a, b], ∃ digits : List Char, h.name.toList = base ++ digits
      ∧ ∀ c ∈ digits, c.isDigit = true) (different : a.name ≠ b.name) :
    ¬ (a.assignment source).toList <+: (b.assignment source).toList := by
  rintro ⟨rest, whole⟩
  obtain ⟨digits, is, each⟩ := numbered a List.mem_cons_self
  obtain ⟨digits', is', each'⟩ := numbered b (List.mem_cons_of_mem _ List.mem_cons_self)
  have cut {ds rest : List Char} (each : ∀ c ∈ ds, c.isDigit = true) :
      (ds ++ ' ' :: rest).takeWhile Char.isDigit = ds := by
    rw [List.takeWhile_append_of_pos each, List.takeWhile_cons_of_neg (by decide), List.append_nil]
  have indented : Text.indentation source a.stmt.span.start
      = Text.indentation source b.stmt.span.start := by
    rw [Text.indentation, show Text.lineStart source a.stmt.span.start = _ from same]
    rfl
  rw [toList_assignment, toList_assignment, indented, List.append_assoc, List.append_cancel_left_eq,
    is, is', List.append_assoc, List.append_assoc, List.append_assoc, List.append_cancel_left_eq,
    List.cons_append] at whole
  have number := congrArg (List.takeWhile Char.isDigit) whole
  rw [cut each, cut each'] at number
  exact different (String.toList_inj.1 (by rw [is, is', number]))

end Hoisting

namespace CallChanges

open Hoisting (ofStmt assignments)

variable {file member text : String} {ctx : CallContext} {reads : List ReplacedRead}
  {changed : CallChanges} {hoistings lines : List Hoisting} {site : CallSite} {receiver root : Expr}
  {s t : Stmt} {m : Module}

/-- A call in a statement ends before the statements in that one begin. -/
lemma Way.call_before_inner (way : Way m site s root) (laid : m.Laid) (once : s.TestsOnce)
    (inside : .stmt t ∈ (Node.stmt s).all) (other : t ≠ s) : site.span.stop ≤ t.span.start := by
  rcases Node.mem_all.1 inside with same | ⟨n, hn, inside⟩
  · exact absurd (Node.stmt.inj same) other
  have part : n.Laid := (laid.node (Module.stmt_mem_nodes.2 way.inTree)).part hn
  cases n with
  | stmt c =>
    have inRoot : root.span.contains site.span = true := laid.expr_contains
      (List.mem_flatMap.2 ⟨s, way.inTree, List.mem_flatMap.2 ⟨root, way.own, root.mem_descendants_self⟩⟩)
      way.mem
    have behind := laid.header_before way.inTree once way.own (Node.mem_children_of_mem_ofStmt hn)
    have inner : c.span.start ≤ t.span.start := (part.descendant inside).2.1
    exact (Span.contains_iff.1 inRoot).2.trans (behind.trans inner)
  | read e =>
    obtain ⟨d, isExpr⟩ := Node.exists_expr?_of_mem_all (Node.expr?_read e) inside
    nomatch isExpr
  | target e =>
    obtain ⟨d, isExpr⟩ := Node.exists_expr?_of_mem_all (Node.expr?_target e) inside
    nomatch isExpr

section

variable (valid : (parse text).problems = [])
  (kept : Kept (parse text).module text (CallSite.ofModule file member (parse text).module) ctx
    changed hoistings lines)
include valid kept

/-- A call whose receiver is kept lies in its statement. -/
lemma Kept.site_inside {h : Hoisting} (mem : h ∈ lines) :
    h.stmt.span.start ≤ h.site.span.start ∧ h.site.span.start < h.site.span.stop
      ∧ h.site.span.stop ≤ h.stmt.span.stop := by
  have laid := parse_laid valid
  obtain ⟨-, -, root, way⟩ := kept.anchored valid mem
  have inTree : root ∈ (parse text).module.reachableExprs := List.mem_flatMap.2
    ⟨h.stmt, way.inTree, List.mem_flatMap.2 ⟨root, way.own, root.mem_descendants_self⟩⟩
  have inRoot := Span.contains_iff.1 (laid.expr_contains inTree way.mem)
  have inStmt := (laid.stmt_holds way.inTree).1.inside root.span (List.mem_map_of_mem way.own)
  have nonempty := laid.expr_nonempty (Module.Laid.descendant_mem inTree way.mem)
  rw [Span.contains_iff] at inStmt
  exact ⟨inStmt.1.trans inRoot.1, nonempty, inRoot.2.trans inStmt.2⟩

/-- No two statements have their lines at one place. -/
lemma Kept.same_stmt_of_place {a b : Hoisting} (ha : a ∈ lines) (hb : b ∈ lines)
    (same : a.place text.toList = b.place text.toList) : a.stmt = b.stmt := by
  have laid := parse_laid valid
  -- each call begins behind the beginning of the other statement
  have behind {a b : Hoisting} (ha : a ∈ lines) (hb : b ∈ lines)
      (same : a.place text.toList = b.place text.toList) : b.stmt.span.start ≤ a.site.span.start := by
    obtain ⟨stands, -⟩ := kept.anchored valid ha
    have inside := kept.site_inside valid ha
    have line := Text.lineStart_le text.toList a.stmt.span.start
    refine (call_beside_anchor valid stands (kept.each b hb).2).resolve_right fun ends => ?_
    change a.site.span.stop ≤ b.place text.toList at ends
    change a.place text.toList ≤ _ at line
    omega
  have ofA := behind ha hb same
  have ofB := behind hb ha same.symm
  have insideA := kept.site_inside valid ha
  have insideB := kept.site_inside valid hb
  obtain ⟨-, anchoredA, rootA, wayA⟩ := kept.anchored valid ha
  obtain ⟨-, anchoredB, rootB, wayB⟩ := kept.anchored valid hb
  by_contra different
  rcases laid.nested_or_apart (Module.stmt_mem_nodes.2 wayA.inTree)
    (Module.stmt_mem_nodes.2 wayB.inTree) with (inside | inside) | before | before
  · have := wayA.call_before_inner laid anchoredA.header inside (Ne.symm different)
    omega
  · have := wayB.call_before_inner laid anchoredB.header inside different
    omega
  · change a.stmt.span.stop ≤ b.stmt.span.start at before
    omega
  · change b.stmt.span.stop ≤ a.stmt.span.start at before
    omega

/-- Where a statement in front of which a receiver is kept stands, seen from a method. -/
inductive BesideMethod (source : List Char) (d : FunctionDef Stmt) (h : Hoisting) : Prop
  /-- The statement is in the body of the method. -/
  | inside (inBody : .stmt h.stmt ∈ (Node.stmt (.functionDef d)).all)
    (line : d.mark.span.start < h.place source)
  /-- The call comes before the method. -/
  | ahead (call : h.site.span.stop ≤ d.mark.span.start)
  /-- The statement comes on a later line. -/
  | behind (line : d.mark.span.stop < h.place source)

/-- A receiver is kept in front of a statement of the body of a method, or away from the method. -/
theorem Kept.besideMethod {c : ClassDef Stmt} {d : FunctionDef Stmt}
    (method : Scope.IsMethod (parse text).module c d) {h : Hoisting} (mem : h ∈ lines) :
    BesideMethod text.toList d h := by
  have laid := parse_laid valid
  obtain ⟨-, anchored, root, way⟩ := kept.anchored valid mem
  have inside := kept.site_inside valid mem
  have other : h.stmt ≠ .functionDef d := by
    intro same
    obtain ⟨rest, above⟩ := laid.stmtAncestors_eq_cons method.class_ method.method
    have notInClass := anchored.notInClass
    rw [same, CallSite.isInClassBody, above] at notInClass
    nomatch notInClass
  have inTree := method.mem_reachableStmts
  rcases laid.nested_or_apart (Module.stmt_mem_nodes.2 way.inTree)
    (Module.stmt_mem_nodes.2 inTree) with (inStmt | inBody) | before | after
  · exact .ahead (way.call_before_inner laid anchored.header inStmt other.symm)
  · exact .inside inBody (start_lt_lineStart valid inTree inBody other anchored.starts)
  · exact .ahead (inside.2.2.trans before)
  · exact .behind (stop_lt_lineStart valid inTree rfl way.inTree anchored.starts after)

lemma Kept.mem_ofStmt {x h : Hoisting} (mem : h ∈ lines) :
    x ∈ ofStmt h.stmt lines ↔ x ∈ lines ∧ x.stmt = h.stmt := by
  rw [ofStmt, List.mem_filter, beq_iff_eq]
  refine and_congr_right fun hx => ⟨fun same => ?_, congrArg Stmt.serial⟩
  obtain ⟨_, _, numbered⟩ := parse_numbered text
  obtain ⟨-, -, root, way⟩ := kept.anchored valid mem
  obtain ⟨-, -, root', way'⟩ := kept.anchored valid hx
  exact List.inj_on_of_nodup_map (Module.stmt_serials_nodup numbered) way'.inTree way.inTree same

/-- The lines of a statement, put together, stand one behind the other. -/
lemma Kept.joined_assignments {h : Hoisting} (mem : h ∈ lines) : ∃ first rest,
    (ofStmt h.stmt lines).map (·.assignment text.toList) = first :: rest
      ∧ Edit.joined first rest = assignments text.toList h.stmt lines := by
  obtain ⟨a, others, split⟩ := List.exists_cons_of_ne_nil
    (List.ne_nil_of_mem ((kept.mem_ofStmt valid mem).2 ⟨mem, rfl⟩))
  refine ⟨a.assignment text.toList, others.map (·.assignment text.toList), by rw [split]; rfl, ?_⟩
  have known {x : Hoisting} (hx : x ∈ a :: others) : x ∈ lines ∧ x.stmt = h.stmt :=
    (kept.mem_ofStmt valid mem).1 (split ▸ hx)
  have names : ((a :: others).map (·.name)).Nodup := by
    have all : (lines.map (·.name)).Nodup := (kept.perm.map _).nodup_iff.2 kept.allocated.nodup
    exact split ▸ all.sublist (List.filter_sublist.map _)
  have numbered {x : Hoisting} (hx : x ∈ lines) : ∃ digits : List Char,
      x.name.toList = ctx.temporaryName.toList ++ digits ∧ ∀ c ∈ digits, c.isDigit = true :=
    kept.allocated.exists_digits x.name (List.mem_map_of_mem (kept.perm.mem_iff.1 hx))
  rw [assignments, split, List.map_cons, String.join_cons]
  refine Edit.joined_eq_append (List.forall_mem_map.2 fun x hx => ?_)
  obtain ⟨hx', ofX⟩ := known (List.mem_cons_of_mem _ hx)
  obtain ⟨ha, ofA⟩ := known List.mem_cons_self
  refine Hoisting.not_prefix_of_name_ne (by rw [Hoisting.place, Hoisting.place, ofX, ofA])
    (List.forall_mem_cons.2 ⟨numbered ha, List.forall_mem_singleton.2 (numbered hx')⟩) fun same => ?_
  exact (List.nodup_cons.1 names).1 (List.mem_map.2 ⟨x, hx, same.symm⟩)

/-- What stands among the edits of a file beside the lines that are put in front of a statement: at
the place of the lines there is nothing else, and nothing else begins between that place and the
statement. -/
structure Beside (file : String) (source : List Char) (lines : List Hoisting) (edits : List Edit)
    (h : Hoisting) : Prop where
  here : edits.filter (Edit.isAt file (.point (h.place source)))
    = (ofStmt h.stmt lines).map fun x => (x.line source).edit
  others : ∀ e ∈ edits, e.span.start < h.place source ∨ e.span = .point (h.place source)
    ∨ h.stmt.span.start ≤ e.span.start

/-- The lines that are put in front of statements stand alone there. -/
theorem Kept.beside {done : Progress} (edits : changed.edits
      = lines.map (fun h => (h.line text.toList).edit) ++ done.pending)
    (ran : (innermostFirst (CallSite.ofModule file member (parse text).module)).foldlM
      (step (parse text).module text ctx reads) (start text ctx) = .ok done)
    {h : Hoisting} (mem : h ∈ lines) : Beside file text.toList lines changed.edits h := by
  have laid := parse_laid valid
  have order := innermostFirst_inOrder file member laid
  obtain ⟨-, anchored⟩ := kept.each h mem
  have line := Text.lineStart_le text.toList h.stmt.span.start
  -- what the calls change is in front of the place, or behind where the statement begins
  have pending : ∀ e ∈ done.pending, e.span.start < h.place text.toList
      ∨ h.stmt.span.start ≤ e.span.start ∧ e.span ≠ .point (h.place text.toList) := by
    intro e he
    obtain ⟨site, hs, arguments, own⟩ := exists_ownEdits order.stands ran e he
    obtain ⟨receiver, stands⟩ := order.stands site hs
    have framed := stands.framed valid
    have inside := stands.changes_inside laid framed (ownEdits_changes framed _ _ _ e own)
    have begins := stands.start_le laid
    rcases call_beside_anchor valid stands anchored with later | earlier
    · refine .inr ⟨later.trans (begins.trans inside.1), fun same => ?_⟩
      rw [same] at inside
      change _ ∧ _ < h.place text.toList ∧ _ at inside
      change h.place text.toList ≤ _ at line
      omega
    · change site.span.stop ≤ h.place text.toList at earlier
      omega
  have inFile : ∀ x ∈ lines, x.site.file = file := fun x hx =>
    (CallSite.ofModule_stands laid (List.mem_mergeSort.1
      (kept.sites.subset (List.mem_map_of_mem (kept.perm.mem_iff.1 hx))))).1
  constructor
  · rw [edits, List.filter_append, List.filter_map]
    have none : done.pending.filter (Edit.isAt file (.point (h.place text.toList))) = [] := by
      refine List.filter_eq_nil_iff.2 fun e he is => ?_
      obtain ⟨-, span⟩ := Edit.isAt_iff.1 is
      rcases pending e he with before | ⟨-, other⟩
      · rw [span] at before
        exact absurd before (Nat.lt_irrefl _)
      · exact other span
    rw [none, List.append_nil, ofStmt]
    refine congrArg (List.map _) (List.filter_congr fun x hx => ?_)
    rw [Function.comp_apply, Hoisting.line_edit, inFile x hx, Edit.isAt_insert, Bool.eq_iff_iff,
      decide_eq_true_eq, beq_iff_eq]
    have same := kept.mem_ofStmt valid (x := x) mem
    rw [ofStmt, List.mem_filter, beq_iff_eq] at same
    constructor
    · intro place
      rw [kept.same_stmt_of_place valid hx mem place]
    · intro serial
      rw [Hoisting.place, Hoisting.place, (same.1 ⟨hx, serial⟩).2]
  · rw [edits]
    refine List.forall_mem_append.2 ⟨List.forall_mem_map.2 fun x hx => ?_, fun e he => ?_⟩
    · have starts (x : Hoisting) (hx : x ∈ lines) : Text.Boundary text.toList x.stmt.span.start :=
        ((parse_sound text).1.stmts x.stmt (anchorOf_ok (kept.each x hx).2).1).here.span.start
      have begins : Text.BetweenLines text.toList (x.place text.toList) :=
        .inl (starts x hx).lineBeginning
      exact (begins.beside (starts h mem)).imp_right (.imp_left (congrArg Span.point))
    · exact (pending e he).imp_right fun behind => .inr behind.1

end

/-- The receivers of a file that are kept, with the lines that they are kept on, and where each call
is written. -/
theorem exists_lines (file member text : String) (ctx : CallContext) (reads : List ReplacedRead)
    {changed : CallChanges} (valid : (parse text).problems = [])
    (ok : ofSites (parse text).module text (CallSite.ofModule file member (parse text).module) ctx
      reads = .ok changed) :
    let sites := CallSite.ofModule file member (parse text).module
    ∃ hoistings lines, Kept (parse text).module text sites ctx changed hoistings lines
      ∧ (∀ h ∈ lines, Beside file text.toList lines changed.edits h)
      ∧ ∀ site ∈ sites, Comes (parse text).module text ctx reads (innermostFirst sites)
        (innermostFirst sites) lines changed.edits site := by
  intro sites
  have laid := parse_laid valid
  have order := innermostFirst_inOrder file member laid
  obtain ⟨done, ran, rfl⟩ := ofSites_eq_ok.1 ok
  obtain ⟨hoistings, keeps, carries⟩ := carries_of_foldlM laid
    (fun other ho => (order.stands other ho).elim fun _ stands => stands.framed valid) order
    (List.append_nil _).symm ran
  obtain ⟨lines, kept, edits⟩ := keeps.kept
  refine ⟨hoistings, lines, kept, fun h mem => kept.beside valid edits ran mem, fun site hs => ?_⟩
  cases carries site (List.mem_mergeSort.2 hs) with
  | gone gone => exact .gone gone
  | inEdit mem written carrier =>
    exact .inEdit (edits ▸ List.mem_append_right _ mem) written carrier
  | onLine mem kept' inside => exact .onLine (kept.perm.mem_iff.2 mem) kept' inside

end CallChanges

end MethodLift
