import MethodLift.Proofs.Call.Anchors
import MethodLift.Proofs.Call.Landing
import MethodLift.Proofs.Lift.Computing

/-!
# Receivers that are evaluated once

A receiver that is kept in a temporary is evaluated on a line of its own, so it should be one that
the statement evaluates once whenever it runs, and before it does anything else.  On the way from the
statement to the call nothing stands that could keep the receiver from being evaluated, but for
operands of chained comparisons behind the first one.  Where there is none of them, and the statement
is certain to evaluate the expression that the call is in, the receiver gets its value once
(`EvaluatedFrom`).

The obstacles that are looked for leave out some: a later comparator may not be evaluated at all
(`later_comparator_hoisted`), nor the message of an assertion, and annotations; the target of a loop
is evaluated in every round.  Behind an act of the statement come the contexts of a `with` but the
first one, and what stands in its targets, and all targets of an assignment or a deletion but the
first one.
-/

namespace MethodLift

open MethodLift.Syntax
open Relation (ReflTransGen)

/-- What is known of a receiver that is kept, and of the expression of the statement that it is in:
how the call is reached, and when the receiver is evaluated. -/
structure Hoisting.EvaluatedFrom (m : Module) (h : Hoisting) (root : Expr) : Prop where
  inTree : h.stmt ∈ m.reachableStmts
  own : root ∈ h.stmt.exprs
  /-- The statement is no `while`, no `elif` and no `try`. -/
  header : h.stmt.TestsOnce
  /-- Each step down to the call is to a part that is certain to be evaluated or to a later operand of
  a chained comparison. -/
  steps : ReflTransGen (fun p d => p.Certain d ∨ p.ComparesLater d) root h.site.call
  /-- Without later operands, and in an expression that the statement is certain to evaluate, the
  receiver gets its value once in each run. -/
  once : ReflTransGen Expr.Certain root h.site.call → root ∈ h.stmt.certain →
    ∀ trace, h.stmt.Runs trace → trace.count (.evaluated h.receiver.serial) = 1
  /-- In an expression that comes before all acts, the receiver gets its value before them, unless
  something else in the same target is assigned first. -/
  ahead : ReflTransGen (fun p d => p.Certain d ∧ ¬ p.AssignsLater d) root h.site.call →
    root ∈ h.stmt.certain → root ∈ h.stmt.early →
    ∀ trace, h.stmt.Runs trace → NeverBehind (.evaluated h.receiver.serial) .acted trace

namespace CallChanges

/-- Every receiver that is kept in a temporary is one that its statement evaluates once, and not
behind any part of its own effect, but for the places that are not looked for. -/
theorem receivers_evaluated_once (file member text : String) (ctx : CallContext)
    (reads : List ReplacedRead) {changed : CallChanges} (valid : (parse text).problems = [])
    (ok : ofSites (parse text).module text (CallSite.ofModule file member (parse text).module) ctx
      reads = .ok changed) :
    ∃ hoistings lines, Kept (parse text).module text
        (CallSite.ofModule file member (parse text).module) ctx changed hoistings lines
      ∧ ∀ h ∈ lines, ∃ root, h.EvaluatedFrom (parse text).module root := by
  have laid := parse_laid valid
  obtain ⟨hoistings, lines, kept⟩ := ofSites_kept ok
  refine ⟨hoistings, lines, kept, fun h mem => ?_⟩
  obtain ⟨stands, anchored, root, way⟩ := kept.anchored valid mem
  refine ⟨root, way.inTree, way.own, anchored.header, way.steps, ?_, ?_⟩
  · intro path certain trace run
    exact run.count_eq_one laid stands.receiver_mem way.inTree certain
      (path.trans stands.surely_receiver)
  · intro path certain early trace run
    exact run.neverBehind_acted laid stands.receiver_mem way.inTree certain early
      (path.trans stands.toReceiver)

set_option maxRecDepth 100000 in
/-- A receiver that is the value of an assignment. -/
theorem assigned_receiver_evaluated_once :
    let text := "r = get().area()\n"
    let ctx : CallContext :=
      ⟨"Shape", "area", [⟨"x", "x", []⟩, ⟨"y", "y", []⟩], .positional, "tmp"⟩
    let m := (parse text).module
    let sites := CallSite.ofModule "main.py" "area" m
    ∃ changed hoistings lines, ofSites m text sites ctx [] = .ok changed
      ∧ changed.changes.map (·.temporary) = [some "tmp"]
      ∧ Kept m text sites ctx changed hoistings lines
      ∧ ∀ h ∈ lines, ∃ root, h.EvaluatedFrom m root := by
  intro text ctx m sites
  have valid : (parse text).problems = [] := by
    refine List.isEmpty_iff.1 ?_
    unfold text
    simp only [parseComputed.eq]
    decide +kernel
  obtain ⟨changed, ok⟩ : ∃ changed, ofSites m text sites ctx [] = .ok changed := by
    refine exists_of_isOk ?_
    unfold sites m text ctx
    simp only [parseComputed.eq, sitesComputed.eq, ofSitesComputed.eq]
    decide +kernel
  have named : (ofSites m text sites ctx []).map (·.changes.map (·.temporary))
      = .ok [some "tmp"] := by
    unfold sites m text ctx
    simp only [parseComputed.eq, sitesComputed.eq, ofSitesComputed.eq]
    decide +kernel
  rw [ok] at named
  obtain ⟨hoistings, lines, kept, each⟩ :=
    receivers_evaluated_once "main.py" "area" text ctx [] valid ok
  exact ⟨changed, hoistings, lines, ok, Except.ok.inj named, kept, each⟩

set_option maxRecDepth 100000 in
/-- The last operand of a chained comparison is hoisted, and there is a run that does not evaluate
its receiver: the one in which the first comparison does not hold. -/
theorem later_comparator_hoisted :
    let text := "r = a < b < get().area()\n"
    let ctx : CallContext :=
      ⟨"Shape", "area", [⟨"x", "x", []⟩, ⟨"y", "y", []⟩], .positional, "tmp"⟩
    let m := (parse text).module
    (parse text).problems.isEmpty = true
      ∧ textAfter "main.py" "area" text ctx []
        = some "tmp = get()\nr = a < b < area(tmp.x, tmp.y)\n"
      ∧ (CallSite.ofModule "main.py" "area" m).map (·.receiver.map (·.serial)) = [some 4]
      ∧ ∃ s ∈ m.body, ∃ trace, s.Runs trace ∧ .evaluated 4 ∉ trace := by
  intro text ctx m
  unfold m text ctx
  refine ⟨?_, ?_, ?_, ?_⟩
  · simp only [parseComputed.eq]
    decide +kernel
  · simp only [textAfter, parseComputed.eq, sitesComputed.eq, ofSitesComputed.eq,
      Edit.normalize_eq_sorted, Edit.applyComputed.eq]
    decide +kernel
  · simp only [parseComputed.eq, sitesComputed.eq]
    decide +kernel
  · let a : Expr := .name ⟨1, ⟨4, 5⟩⟩ "a" .load
    let b : Expr := .name ⟨2, ⟨8, 9⟩⟩ "b" .load
    let get : Expr := .call ⟨4, ⟨12, 17⟩⟩ (.name ⟨3, ⟨12, 15⟩⟩ "get" .load) []
    let area : Expr := .call ⟨6, ⟨12, 24⟩⟩ (.attr ⟨5, ⟨12, 22⟩⟩ get ⟨"area", ⟨18, 22⟩⟩ .load) []
    let comparison : Expr := .compare ⟨7, ⟨4, 24⟩⟩ a [.lt, .lt] [b, area]
    have body : (parse "r = a < b < get().area()\n").module.body
        = [.assign ⟨0, ⟨0, 24⟩⟩ [.name ⟨0, ⟨0, 1⟩⟩ "r" .store] comparison] := by
      unfold comparison area get a b
      cbv
    have fromA : a.Course [] := rfl
    have fromB : b.Course [] := rfl
    have compared : comparison.Course [a, b] :=
      ⟨[b], List.prefix_append [b] [area], fun _ => List.cons_ne_nil _ _, rfl⟩
    have operands : Runs (evaluations [a, b]) [.evaluated 1, .evaluated 2] :=
      .evaluate fromA .nil (.evaluate fromB .nil .nil)
    rw [body]
    refine ⟨_, List.mem_singleton_self _, [.evaluated 1, .evaluated 2, .evaluated 7, .acted],
      ⟨_, rfl, ?_⟩, by decide⟩
    rw [List.flatMap_singleton, Expr.assigning_eq]
    exact .evaluate compared operands (.act .nil)

end CallChanges

end MethodLift
