import MethodLift.Proofs.Call.Hoisting
import MethodLift.Proofs.Call.Neighbours
import MethodLift.Proofs.Syntax.Certainty

/-!
# The way from a statement to a call

A receiver is only kept before a statement if nothing stands in the way.  What is looked for are
obstacles on the way from the call up to the statement, node by node.  Read downwards this says that
each node on the way is a part that is certain to be evaluated with the node around it, or a later
operand of a chained comparison, which is not looked for (`exists_way`).
-/

namespace MethodLift

open MethodLift.Syntax
open Relation (ReflTransGen)

namespace CallSite

/-- The call as an expression. -/
def call (site : CallSite) : Expr := .call site.mark site.func site.args

variable {m : Module} {site : CallSite} {receiver : Expr}

/-- A call evaluates its receiver, and assigns nothing. -/
lemma Stands.toReceiver (h : site.Stands m receiver) :
    ReflTransGen (fun p d => p.Certain d ∧ ¬ p.AssignsLater d) site.call receiver := by
  obtain ⟨mark, name, ctx, callee⟩ := h.callee
  have toFunc : site.call.Certain site.func := List.mem_cons_self
  have toReceiver : site.func.Certain receiver := by
    rw [callee]
    exact List.mem_cons_self
  refine .head ⟨toFunc, fun later => nomatch later.1⟩ (.single ⟨toReceiver, fun later => ?_⟩)
  rw [callee] at later
  nomatch later.1

lemma Stands.surely_receiver (h : site.Stands m receiver) : site.call.Surely receiver :=
  ReflTransGen.mono (fun _ _ => And.left) _ _ h.toReceiver

/-- A receiver is there to be read. -/
lemma Stands.receiver_mem (h : site.Stands m receiver) : .read receiver ∈ m.nodes :=
  Module.mem_nodes_of_mem_parts h.callee_mem h.receiver_mem_parts

end CallSite

namespace CallChanges

variable {m : Module} {source : List Char} {site : CallSite} {stmt : Stmt}

/-- What is known of the statement before which a receiver is kept. -/
structure Anchored (m : Module) (source : List Char) (site : CallSite) (stmt : Stmt) : Prop where
  /-- Between the call and the statement nothing stands in the way. -/
  way : ∀ step ∈ (site.call :: m.exprAncestors site.mark.serial).zip
    (m.exprAncestors site.mark.serial), CallSite.obstacleInExpr? step.2 step.1 = none
  encloses : m.enclosingStmt? site.mark.serial = some stmt
  header : stmt.TestsOnce
  notInClass : CallSite.isInClassBody m stmt = false
  starts : Text.startsLine source stmt.span.start = true

lemma testsOnce_of_none (none : CallSite.obstacleInStmt? stmt = none) : stmt.TestsOnce := by
  cases stmt with
  | whileLoop => nomatch none
  | tryBlock => nomatch none
  | ifElse mark isElif =>
    cases isElif with
    | true => nomatch none
    | false => trivial
  | _ => trivial

lemma anchorOf_anchored (h : anchorOf m source site = .ok stmt) : Anchored m source site stmt := by
  unfold anchorOf at h
  split at h
  next s anchor =>
    obtain rfl := Except.ok.inj h
    unfold CallSite.anchor at anchor
    dsimp only at anchor
    split at anchor
    · nomatch anchor
    next way =>
    split at anchor
    · nomatch anchor
    next found =>
    split at anchor
    · nomatch anchor
    next header =>
    split at anchor
    · nomatch anchor
    next notInClass =>
    split at anchor
    next starts =>
      obtain rfl := Except.ok.inj anchor
      exact ⟨List.findSome?_eq_none_iff.1 way, found, testsOnce_of_none header,
        Bool.eq_false_iff.2 notInClass, starts⟩
    · nomatch anchor
  · nomatch h

variable {p d root e : Expr} {around : List Expr}

/-- Where nothing stands in the way, a part is certain to be evaluated, or is a later comparator. -/
lemma certain_or_later (laid : m.Laid) (hp : p ∈ m.reachableExprs) (hd : d ∈ p.children)
    (noName : d.asName = none) (none : CallSite.obstacleInExpr? p d = none) :
    p.Certain d ∨ p.ComparesLater d := by
  have same {c : Expr} (hc : c ∈ p.children) (serial : (c.serial == d.serial) = true) : d = c :=
    (List.inj_on_of_nodup_map laid.serials_nodup (Module.mem_reachableExprs_of_in (p := .expr p) hp hc)
      (Module.mem_reachableExprs_of_in (p := .expr p) hp hd) (eq_of_beq serial)).symm
  cases p with
  | lambda => nomatch none
  | boolean mark op values =>
    rw [CallSite.obstacleInExpr?] at none
    split at none
    next first =>
      obtain ⟨v, isFirst, serial⟩ := (Option.any_eq_true _ _).1 first
      obtain rfl := same (List.mem_of_mem_head? isFirst) serial
      exact .inl isFirst
    · nomatch none
  | compare mark left ops comparators =>
    rcases List.mem_cons.1 hd with rfl | hd
    · exact .inl (.inl rfl)
    · cases comparators with
      | nil => nomatch hd
      | cons value comparators =>
        rcases List.mem_cons.1 hd with rfl | hd
        · exact .inl (.inr rfl)
        · exact .inr hd
  | conditional mark test body orelse =>
    rw [CallSite.obstacleInExpr?] at none
    split at none
    next isTest => exact .inl (same (List.mem_cons_of_mem _ List.mem_cons_self) isTest)
    · nomatch none
  | comprehension mark kind element value generators =>
    rw [CallSite.obstacleInExpr?] at none
    split at none
    next first =>
      obtain ⟨g, isFirst, serial⟩ := (Option.any_eq_true _ _).1 first
      refine .inl ⟨g, isFirst, same ?_ serial⟩
      refine List.mem_append_right _ (List.mem_flatMap.2 ⟨g, List.mem_of_mem_head? isFirst, ?_⟩)
      exact List.mem_cons_of_mem _ List.mem_cons_self
    · nomatch none
  | named mark target value =>
    obtain ⟨n, hn, is⟩ := Module.exists_node_of_mem_reachableExprs hp
    obtain ⟨mark', id, ctx, rfl⟩ := (laid.node hn).here.formed _ is
    rcases List.mem_cons.1 hd with rfl | hd
    · nomatch noName
    · exact .inl (List.mem_singleton.1 hd)
  | _ => exact .inl hd

/-- An expression with something inside it is no name. -/
lemma asName_eq_none_of_child (hd : d ∈ p.children) : p.asName = none := by
  cases p with
  | name => nomatch hd
  | _ => rfl

/-- Going down a path of steps that lead upwards from an expression that is no name. -/
lemma reflTransGen_of_upto {R : Expr → Expr → Prop} (upto : Expr.branching.Upto root e around)
    (noName : e.asName = none) (each : ∀ p ∈ root.descendants, ∀ d ∈ p.children, d.asName = none →
      (d, p) ∈ (e :: around).zip around → R p d) : ReflTransGen R root e := by
  induction upto with
  | root => exact .refl
  | @up d p around hd rest ih =>
    refine .tail (ih (asName_eq_none_of_child hd) fun q hq c hc noName' step => ?_)
      (each p rest.mem d hd noName List.mem_cons_self)
    exact each q hq c hc noName' (List.mem_cons_of_mem _ step)

/-- The way from a statement down to a call whose receiver is kept before it. -/
structure Way (m : Module) (site : CallSite) (s : Stmt) (root : Expr) : Prop where
  inTree : s ∈ m.reachableStmts
  own : root ∈ s.exprs
  mem : site.call ∈ root.descendants
  steps : ReflTransGen (fun p d => p.Certain d ∨ p.ComparesLater d) root site.call

/-- From the call the way goes on to the receiver. -/
lemma Way.toReceiver {s : Stmt} {receiver : Expr} (way : Way m site s root)
    (stands : site.Stands m receiver) :
    ReflTransGen (fun p d => p.Certain d ∨ p.ComparesLater d) root receiver :=
  way.steps.trans (ReflTransGen.mono (fun _ _ => .inl) _ _ stands.surely_receiver)

/-- A receiver is kept before the statement that its call is in, and each step on the way there is to
a certain part or to a later comparator. -/
theorem exists_way {text : String} {site : CallSite} {receiver : Expr} {stmt : Stmt}
    (valid : (parse text).problems = []) (stands : site.Stands (parse text).module receiver)
    (anchored : Anchored (parse text).module text.toList site stmt) :
    ∃ root, Way (parse text).module site stmt root := by
  have laid := parse_laid valid
  obtain ⟨a, z, numbered⟩ := parse_numbered text
  obtain ⟨s, hs, mem⟩ := List.mem_flatMap.1 stands.mem_reachableExprs
  obtain rfl : s = stmt :=
    Option.some.inj ((Module.enclosingStmt?_eq numbered hs mem).symm.trans anchored.encloses)
  obtain ⟨root, hr, mem⟩ := List.mem_flatMap.1 mem
  obtain ⟨around, upto⟩ := Expr.branching.exists_upto mem
  have ancestors := Module.exprAncestors_eq numbered hs hr upto
  refine ⟨root, hs, hr, mem, reflTransGen_of_upto upto rfl fun p hp d hd noName step => ?_⟩
  have inTree : p ∈ (parse text).module.reachableExprs :=
    List.mem_flatMap.2 ⟨s, hs, List.mem_flatMap.2 ⟨root, hr, hp⟩⟩
  exact certain_or_later laid inTree hd noName (anchored.way (d, p) (ancestors ▸ step))

/-- What is known of a receiver that is kept: where its call stands, and how the call is reached from
the statement. -/
theorem Kept.anchored {file member text : String} {ctx : CallContext} {changed : CallChanges}
    {hoistings lines : List Hoisting} (valid : (parse text).problems = [])
    (kept : Kept (parse text).module text (CallSite.ofModule file member (parse text).module) ctx
      changed hoistings lines) {h : Hoisting} (mem : h ∈ lines) :
    h.site.Stands (parse text).module h.receiver
      ∧ Anchored (parse text).module text.toList h.site h.stmt
      ∧ ∃ root, Way (parse text).module h.site h.stmt root := by
  obtain ⟨received, anchor⟩ := kept.each h mem
  have listed : h.site ∈ CallSite.ofModule file member (parse text).module :=
    List.mem_mergeSort.1 (kept.sites.subset (List.mem_map_of_mem (kept.perm.mem_iff.1 mem)))
  obtain ⟨-, receiver, stands⟩ := CallSite.ofModule_stands (parse_laid valid) listed
  obtain rfl : receiver = h.receiver := Option.some.inj (stands.receiver.symm.trans received)
  have anchored := anchorOf_anchored anchor
  exact ⟨stands, anchored, exists_way valid stands anchored⟩

end CallChanges

end MethodLift
