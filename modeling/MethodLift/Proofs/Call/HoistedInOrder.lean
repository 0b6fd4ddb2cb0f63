import MethodLift.Proofs.Call.Anchors
import MethodLift.Proofs.Call.Composing
import MethodLift.Proofs.Call.Landing
import MethodLift.Proofs.Lift.Computing
import MethodLift.Proofs.Syntax.EvaluationOrder

/-!
# Receivers that are evaluated in order

Temporaries of a statement are assigned in the order in which their receivers end in the text.  That
is the order in which the statement evaluates them, unless the ways to them part where evaluation
does not follow the text (`Crossed`): the value of an assignment is evaluated before what stands in
its targets, and so its receivers should be kept first, but they are not (`value_hoisted_last`).  The
same goes for arguments behind ones that are passed by name, and for defaults behind annotations.

What a temporary is assigned mentions temporaries of calls in the receiver, and a receiver ends behind
those that it contains.  So these are assigned on earlier lines, in every case.
-/

namespace MethodLift

open MethodLift.Syntax
open Relation (ReflTransGen)

namespace CallSite.Stands

variable {m : Module} {site other : CallSite} {receiver receiver' : Expr} (laid : m.Laid)
  (h : site.Stands m receiver) (h' : other.Stands m receiver') (framed' : other.Framed)
include laid h h' framed'

/-- A receiver ends behind those of the calls in it. -/
lemma receiver_stop_lt_of_inside (inside : other.node ∈ (Node.read receiver).all) :
    receiver'.span.stop < receiver.span.stop := by
  have contains : other.span.stop ≤ receiver.span.stop :=
    (Span.contains_iff.1 (h.inReceiver laid inside).1).2
  have shorter := h'.receiver_stop_lt laid
  have callee := framed'.callee
  omega

/-- No two receivers end at the same place. -/
lemma receiver_stop_ne (framed : site.Framed)
    (different : site.mark.serial ≠ other.mark.serial) :
    receiver.span.stop ≠ receiver'.span.stop := by
  -- a receiver ends before whatever stands behind the callee
  have behind {a b : CallSite} {r r' : Expr} (h : a.Stands m r) (h' : b.Stands m r')
      (start : a.func.span.stop ≤ b.span.start) : r.span.stop < r'.span.stop := by
    have shorter := h.receiver_stop_lt laid
    have start' := h'.start_le laid
    have inside := Span.contains_iff.1 (h'.callee_contains_receiver laid)
    have nonempty := ((laid.node h'.callee_mem).part h'.receiver_mem_parts).here.nonempty
    change r'.span.start < r'.span.stop at nonempty
    omega
  have callee := framed.callee
  have callee' := framed'.callee
  rcases h.related laid h' (CallSite.node_ne different) with
    (inside | ⟨a, ha, inside⟩) | (inside | ⟨a, ha, inside⟩) | before | before
  · exact (h.receiver_stop_lt_of_inside laid h' framed' inside).ne'
  · have start : a.value.span.start ≤ other.span.start := (h.inValue laid ha inside).1
    have value := (framed.value a ha).1
    exact (behind h h' (by omega)).ne
  · exact (h'.receiver_stop_lt_of_inside laid h framed inside).ne
  · have start : a.value.span.start ≤ site.span.start := (h'.inValue laid ha inside).1
    have value := (framed'.value a ha).1
    exact (behind h' h (by omega)).ne'
  · exact (behind h h' (by omega)).ne
  · exact (behind h' h (by omega)).ne'

end CallSite.Stands

namespace CallChanges

variable {file member text : String} {ctx : CallContext} {reads : List ReplacedRead}
  {changed : CallChanges} {hoistings lines : List Hoisting}

namespace Kept

variable (valid : (parse text).problems = [])
  (kept : Kept (parse text).module text (CallSite.ofModule file member (parse text).module) ctx
    changed hoistings lines)
include valid kept

/-- The receivers of a statement end in the order of the lines. -/
lemma receivers_end_in_order : lines.Pairwise fun a b => a.site.mark.serial ≠ b.site.mark.serial
    ∧ (a.stmt = b.stmt → a.receiver.span.stop < b.receiver.span.stop) := by
  have laid := parse_laid valid
  have serials : (lines.map (·.site.mark.serial)).Nodup := by
    refine (kept.perm.map _).nodup_iff.2 ?_
    have sites := (innermostFirst_inOrder file member laid).order.sublist kept.sites
    exact List.pairwise_map.2 ((List.pairwise_map.1 sites).imp And.right)
  refine (kept.ordered.and (List.pairwise_map.1 serials)).imp_of_mem ?_
  intro a b ha hb ⟨ordered, different⟩
  refine ⟨different, fun same => ?_⟩
  obtain ⟨stands, -⟩ := kept.anchored valid ha
  obtain ⟨stands', -⟩ := kept.anchored valid hb
  have ends := stands.receiver_stop_ne laid stands' (stands'.framed valid) (stands.framed valid)
    different
  have place : (a.line text.toList).edit.span.start = (b.line text.toList).edit.span.start := by
    rw [Hoisting.line, Hoisting.line, same]
    rfl
  rcases linesBefore_iff.1 ordered with before | ⟨-, le⟩
  · exact absurd place before.ne
  · exact lt_of_le_of_ne le ends

/-- A receiver that is kept for a call in another one is kept before the same statement. -/
lemma same_stmt {a b : Hoisting} (ha : a ∈ lines) (hb : b ∈ lines)
    (inside : a.site.node ∈ (Node.read b.receiver).all) : a.stmt = b.stmt := by
  obtain ⟨-, anchored, -⟩ := kept.anchored valid ha
  obtain ⟨stands, -, root, way⟩ := kept.anchored valid hb
  have inReceiver : a.site.call ∈ b.receiver.descendants := by
    have exprs := Node.filterMap_expr?_all (n := .read b.receiver) rfl
    exact exprs ▸ List.mem_filterMap.2 ⟨_, inside, rfl⟩
  have inCall : b.receiver ∈ b.site.call.descendants :=
    Expr.mem_of_path (fun _ _ => Expr.Certain.child) stands.surely_receiver
  have inStmt : a.site.call ∈ Module.exprsOfStmt b.stmt :=
    List.mem_flatMap.2 ⟨root, way.own,
      Expr.mem_descendants_trans way.mem (Expr.mem_descendants_trans inCall inReceiver)⟩
  obtain ⟨_, _, numbered⟩ := parse_numbered text
  have encloses := Module.enclosingStmt?_eq numbered way.inTree inStmt
  exact Option.some.inj (anchored.encloses.symm.trans encloses)

/-- A receiver that is kept for a call in another one is kept on an earlier line. -/
lemma earlier {front back : List Hoisting} {a b : Hoisting} (split : lines = front ++ b :: back)
    (ha : a ∈ lines) (inside : a.site.node ∈ (Node.read b.receiver).all) : a ∈ front := by
  have laid := parse_laid valid
  have hb : b ∈ lines := split ▸ List.mem_append_right _ List.mem_cons_self
  obtain ⟨stands, -⟩ := kept.anchored valid ha
  obtain ⟨stands', -⟩ := kept.anchored valid hb
  have ends := stands'.receiver_stop_lt_of_inside laid stands (stands.framed valid) inside
  have order := kept.receivers_end_in_order valid
  rw [split] at ha order
  rcases List.mem_append.1 ha with ha | ha
  · exact ha
  rcases List.mem_cons.1 ha with rfl | ha
  · exact absurd ends (Nat.lt_irrefl _)
  · have later := (List.pairwise_cons.1 (List.pairwise_append.1 order).2.1).1 a ha
    have := later.2 (kept.same_stmt valid (split ▸ List.mem_append_right _ (List.mem_cons_of_mem _ ha))
      hb inside).symm
    omega

end Kept

/-- What is known of the order of the lines with temporaries. -/
structure LinesInOrder (m : Module) (text : String) (ctx : CallContext) (reads : List ReplacedRead)
    (lines : List Hoisting) : Prop where
  /-- Receivers of a statement get their values in the order of the lines, unless the ways to them
  part where evaluation does not follow the text. -/
  evaluated : lines.Pairwise fun a b => a.stmt = b.stmt → ¬ Crossed a.stmt a.receiver b.receiver →
    ∀ trace, a.stmt.Runs trace →
      NeverBehind (.evaluated a.receiver.serial) (.evaluated b.receiver.serial) trace
  /-- What a temporary is assigned mentions temporaries of earlier lines only. -/
  mentions : ∀ front h back, lines = front ++ h :: back →
    Composed m text ctx reads (· ∈ front) h.site h.written

/-- The temporaries of a statement are assigned in the order in which the statement evaluates their
receivers, where this is the order of the text, and mention only temporaries assigned before. -/
theorem receivers_evaluated_in_order (file member text : String) (ctx : CallContext)
    (reads : List ReplacedRead) {changed : CallChanges} (valid : (parse text).problems = [])
    (ok : ofSites (parse text).module text (CallSite.ofModule file member (parse text).module) ctx
      reads = .ok changed) :
    ∃ hoistings lines, Kept (parse text).module text
        (CallSite.ofModule file member (parse text).module) ctx changed hoistings lines
      ∧ LinesInOrder (parse text).module text ctx reads lines := by
  have laid := parse_laid valid
  have order := innermostFirst_inOrder file member laid
  obtain ⟨done, ran, rfl⟩ := ofSites_eq_ok.1 ok
  obtain ⟨hoistings, keeps, composes⟩ := composes_of_foldlM laid
    (fun a ha => (order.stands a ha).elim fun _ stands => stands.framed valid) order ran
  obtain ⟨lines, kept, -⟩ := keeps.kept
  refine ⟨hoistings, lines, kept, ?_, ?_⟩
  · refine (kept.receivers_end_in_order valid).imp_of_mem ?_
    intro a b ha hb ⟨_, ends⟩ same straight trace run
    obtain ⟨stands, anchored, root, way⟩ := kept.anchored valid ha
    obtain ⟨stands', -, root', way'⟩ := kept.anchored valid hb
    exact run.neverBehind laid way.inTree anchored.header way.own (same ▸ way'.own)
      (way.toReceiver stands) (way'.toReceiver stands') (ends same) straight
  · intro front h back split
    have mem : h ∈ lines := split ▸ List.mem_append_right _ List.mem_cons_self
    obtain ⟨values, rewritten, inner⟩ := composes.each h (kept.perm.mem_iff.1 mem)
    refine .written rewritten fun a value is => (inner a value is).inside.mono fun x mentioned => ?_
    have inReceiver := Node.mem_all_trans (rewritten.inside a value is) mentioned.2
    exact kept.earlier valid split (kept.perm.mem_iff.2 mentioned.1) inReceiver

set_option maxRecDepth 100000 in
/-- Calls in a receiver, in the receiver of that receiver and in an argument. -/
theorem nested_receivers_evaluated_in_order :
    let text := "f().area().area(g().area())\n"
    let ctx : CallContext :=
      ⟨"Shape", "area", [⟨"x", "x", []⟩, ⟨"y", "y", []⟩], .positional, "tmp"⟩
    let m := (parse text).module
    let sites := CallSite.ofModule "main.py" "area" m
    ∃ changed hoistings lines, ofSites m text sites ctx [] = .ok changed
      ∧ changed.changes.map (·.temporary) = [some "tmp", some "tmp2", some "tmp1"]
      ∧ Kept m text sites ctx changed hoistings lines ∧ LinesInOrder m text ctx [] lines := by
  intro text ctx m sites
  have valid : (parse text).problems = [] := by
    refine List.isEmpty_iff.1 ?_
    unfold text
    simp only [parseComputed.eq]
    decide +kernel
  obtain ⟨changed, ok⟩ : ∃ changed, ofSites m text sites ctx [] = .ok changed := by
    refine exists_of_isOk ?_
    unfold sites m text ctx
    simp only [parseComputed.eq, sitesComputed.eq, ofSitesComputed.eq]
    decide +kernel
  have named : (ofSites m text sites ctx []).map (·.changes.map (·.temporary))
      = .ok [some "tmp", some "tmp2", some "tmp1"] := by
    unfold sites m text ctx
    simp only [parseComputed.eq, sitesComputed.eq, ofSitesComputed.eq]
    decide +kernel
  rw [ok] at named
  obtain ⟨hoistings, lines, kept, inOrder⟩ :=
    receivers_evaluated_in_order "main.py" "area" text ctx [] valid ok
  exact ⟨changed, hoistings, lines, ok, Except.ok.inj named, kept, inOrder⟩

set_option maxRecDepth 100000 in
/-- The receiver in the value of an assignment is kept behind the one in its target, and there is a
run in which it gets its value first. -/
theorem value_hoisted_last :
    let text := "x[f().area()] = g().area()\n"
    let ctx : CallContext :=
      ⟨"Shape", "area", [⟨"x", "x", []⟩, ⟨"y", "y", []⟩], .positional, "tmp"⟩
    let m := (parse text).module
    (parse text).problems.isEmpty = true
      ∧ textAfter "main.py" "area" text ctx []
        = some "tmp = f()\ntmp1 = g()\nx[area(tmp.x, tmp.y)] = area(tmp1.x, tmp1.y)\n"
      ∧ (CallSite.ofModule "main.py" "area" m).map (·.receiver.map (·.serial)) = [some 2, some 7]
      ∧ ∃ s ∈ m.body, ∃ trace, s.Runs trace ∧ ¬ NeverBehind (.evaluated 2) (.evaluated 7) trace := by
  intro text ctx m
  unfold m text ctx
  refine ⟨?_, ?_, ?_, ?_⟩
  · simp only [parseComputed.eq]
    decide +kernel
  · simp only [textAfter, parseComputed.eq, sitesComputed.eq, ofSitesComputed.eq,
      Edit.normalize_eq_sorted, Edit.applyComputed.eq]
    decide +kernel
  · simp only [parseComputed.eq, sitesComputed.eq]
    decide +kernel
  · let x : Expr := .name ⟨0, ⟨0, 1⟩⟩ "x" .load
    let f : Expr := .name ⟨1, ⟨2, 3⟩⟩ "f" .load
    let callF : Expr := .call ⟨2, ⟨2, 5⟩⟩ f []
    let areaF : Expr := .attr ⟨3, ⟨2, 10⟩⟩ callF ⟨"area", ⟨6, 10⟩⟩ .load
    let index : Expr := .call ⟨4, ⟨2, 12⟩⟩ areaF []
    let g : Expr := .name ⟨6, ⟨16, 17⟩⟩ "g" .load
    let callG : Expr := .call ⟨7, ⟨16, 19⟩⟩ g []
    let areaG : Expr := .attr ⟨8, ⟨16, 24⟩⟩ callG ⟨"area", ⟨20, 24⟩⟩ .load
    let value : Expr := .call ⟨9, ⟨16, 26⟩⟩ areaG []
    have body : (parse "x[f().area()] = g().area()\n").module.body
        = [.assign ⟨0, ⟨0, 26⟩⟩ [.subscript ⟨5, ⟨0, 13⟩⟩ x index .store] value] := by
      unfold value areaG callG g index areaF callF f x
      cbv
    have fromX : x.Course [] := rfl
    have fromF : f.Course [] := rfl
    have fromG : g.Course [] := rfl
    have toCallF : callF.Course [f] := rfl
    have toCallG : callG.Course [g] := rfl
    have toAreaF : areaF.Course [callF] := rfl
    have toAreaG : areaG.Course [callG] := rfl
    have toIndex : index.Course [areaF] := rfl
    have toValue : value.Course [areaG] := rfl
    have inValue : Runs (evaluations [areaG]) [.evaluated 6, .evaluated 7, .evaluated 8] :=
      .evaluate toAreaG (.evaluate toCallG (.evaluate fromG .nil .nil) .nil) .nil
    have inIndex : Runs (evaluations [areaF]) [.evaluated 1, .evaluated 2, .evaluated 3] :=
      .evaluate toAreaF (.evaluate toCallF (.evaluate fromF .nil .nil) .nil) .nil
    rw [body]
    refine ⟨_, List.mem_singleton_self _, [.evaluated 6, .evaluated 7, .evaluated 8, .evaluated 9,
      .evaluated 0, .evaluated 1, .evaluated 2, .evaluated 3, .evaluated 4, .acted],
      ⟨_, rfl, ?_⟩, by unfold NeverBehind; decide⟩
    rw [List.flatMap_singleton, Expr.assigning_eq]
    exact .evaluate toValue inValue (.evaluate fromX .nil (.evaluate toIndex inIndex (.act .nil)))

end CallChanges

end MethodLift
