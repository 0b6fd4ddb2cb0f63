import MethodLift.Proofs.Method.Accepted
import MethodLift.Proofs.Workspace.Sources
import MethodLift.Call.Change

/-!
# How calls and reads nest

A call site is a call in the tree, and its receiver is what the callee's attribute is taken from.
Whatever else stands in the tree and neither contains the call nor is its callee is either inside
the receiver or apart from the callee.  For another call that comes earlier in the order in which
calls are taken, and for an accepted read, this leaves two cases: its text moves with the receiver,
or it has nothing to do with what replaces the callee.
-/

namespace MethodLift

open MethodLift.Syntax MethodLift.Scope

/-- An access to an attribute of a name has no call in it. -/
lemma Safety.IsAccess.call_notMem {m : Module} {x : Node} (access : IsAccess m x) {mark : Mark}
    {func : Expr} {args : List (Arg Expr)} : .read (.call mark func args) ∉ x.all := by
  intro into
  obtain ⟨mark, value, member, ctx, isAttr, _, _, _, rfl⟩ := access.object
  rcases Node.mem_all.1 into with same | ⟨c, hc, into⟩
  · rw [← same] at isAttr
    nomatch isAttr
  obtain ⟨e, he, isName⟩ := Node.expr?_of_mem_parts isAttr hc
  obtain rfl := List.mem_singleton.1 he
  rcases Node.mem_all.1 into with same | ⟨c', hc', -⟩
  · rw [← same] at isName
    nomatch isName
  · obtain ⟨e, he, -⟩ := Node.expr?_of_mem_parts isName hc'
    nomatch he

namespace CallSite

/-- A call site of a tree: a call of an attribute of its receiver. -/
structure Stands (m : Module) (site : CallSite) (receiver : Expr) : Prop where
  call : .read (.call site.mark site.func site.args) ∈ m.nodes
  callee : ∃ mark name ctx, site.func = .attr mark receiver name ctx
  receiver : site.receiver = some receiver

namespace Stands

variable {m : Module} {site : CallSite} {receiver : Expr} {x : Node} (laid : m.Laid)
  (h : site.Stands m receiver)
include h

lemma callee_mem : .read site.func ∈ m.nodes :=
  Module.mem_nodes_of_mem_parts h.call List.mem_cons_self

/-- Inside the callee, but for the callee itself, everything is inside the receiver. -/
lemma mem_receiver (hx : x ∈ (Node.read site.func).all) (other : x ≠ .read site.func) :
    x ∈ (Node.read receiver).all := by
  obtain ⟨mark, name, ctx, callee⟩ := h.callee
  rw [callee] at hx other
  rcases Node.mem_all.1 hx with rfl | ⟨c, hc, hx⟩
  · exact absurd rfl other
  · obtain rfl := List.mem_singleton.1 hc
    exact hx

lemma receiver_mem_parts : .read receiver ∈ (Node.read site.func).parts := by
  obtain ⟨mark, name, ctx, callee⟩ := h.callee
  rw [callee]
  exact List.mem_cons_self

include laid

/-- The callee goes on behind the receiver. -/
lemma receiver_stop_lt : receiver.span.stop < site.func.span.stop := by
  obtain ⟨mark, name, ctx, callee⟩ := h.callee
  have formed := (laid.node h.callee_mem).here.formed _ rfl
  rw [callee] at formed ⊢
  exact formed

lemma callee_contains_receiver : site.func.span.contains receiver.span = true :=
  Span.contains_iff.2 ((laid.node h.callee_mem).here.inside _ h.receiver_mem_parts)

lemma callee_nonempty : site.func.span.start < site.func.span.stop :=
  (laid.node h.callee_mem).here.nonempty

/-- What does not contain the call, and is not its callee, is inside the receiver or apart from the
callee. -/
theorem inReceiver_or_apart (hx : x ∈ m.nodes) (notCallee : x ≠ .read site.func)
    (notAround : .read (.call site.mark site.func site.args) ∉ x.all) :
    receiver.span.contains x.span = true ∨ x.span.Apart site.func.span := by
  have call := laid.node h.call
  have callee := call.here.inside (.read site.func) List.mem_cons_self
  rcases laid.nested_or_apart hx h.call with (into | into) | apart
  · exact absurd into notAround
  · rcases Node.mem_all.1 into with rfl | ⟨c, hc, into⟩
    · exact absurd (Node.self_mem_all _) notAround
    rcases List.mem_cons.1 hc with rfl | argument
    · have inside := h.mem_receiver into notCallee
      have receives := (laid.node h.callee_mem).part h.receiver_mem_parts
      exact .inl (Span.contains_iff.2 (receives.descendant inside).2)
    · -- arguments stand behind the callee
      have behind := ((List.pairwise_cons.1 call.here.apart).1 c argument).stop_le
      have inside := ((call.part hc).descendant into).2.1
      exact .inr (.inr (Nat.le_trans behind inside))
  · right
    rcases apart with before | behind
    · exact .inl (Nat.le_trans before callee.1)
    · exact .inr (Nat.le_trans callee.2 behind)

/-- An accepted read. -/
theorem read_inReceiver_or_apart (access : Safety.IsAccess m x) :
    receiver.span.contains x.span = true ∨ x.span.Apart site.func.span :=
  h.inReceiver_or_apart laid access.mem (access.notCalled _ h.call _ _ _ rfl)
    access.call_notMem

/-- Another call that ends no later. -/
theorem callee_inReceiver_or_apart {first : CallSite} {receiver' : Expr}
    (h' : first.Stands m receiver') (other : first.mark.serial ≠ site.mark.serial)
    (order : first.span.stop ≤ site.span.stop) :
    receiver.span.contains first.func.span = true ∨ first.func.span.Apart site.func.span := by
  refine h.inReceiver_or_apart laid h'.callee_mem ?_ ?_
  · intro same
    have inBoth : Node.read site.func ∈ (Node.read
        (.call first.mark first.func first.args)).parts := same ▸ List.mem_cons_self
    have calls := laid.parent_unique h'.call h.call inBoth List.mem_cons_self
    have marks := (Expr.call.inj (Node.read.inj calls)).1
    exact other (congrArg Mark.serial marks)
  · intro into
    -- the later call would end inside the receiver of the earlier one
    obtain ⟨mark, name, ctx, callee⟩ := h'.callee
    have isCall : Node.read (.call site.mark site.func site.args) ≠ .read first.func := by
      rw [callee]
      exact fun same => nomatch Node.read.inj same
    have inside := h'.mem_receiver into isCall
    have receives := (laid.node h'.callee_mem).part h'.receiver_mem_parts
    have stops := (receives.descendant inside).2.2
    have shorter := h'.receiver_stop_lt laid
    have callee := ((laid.node h'.call).here.inside (.read first.func) List.mem_cons_self).2
    change site.span.stop ≤ receiver'.span.stop at stops
    change first.func.span.stop ≤ first.span.stop at callee
    omega

end Stands

/-! ## The call sites of a module -/

lemma ofExpr?_ok {file member : String} {e : Expr} {site : CallSite}
    (h : ofExpr? file member e = some site) : site.file = file
      ∧ e = .call site.mark site.func site.args ∧ ∃ receiver, site.receiver = some receiver
        ∧ ∃ mark name ctx, site.func = .attr mark receiver name ctx ∧ name.name = member := by
  unfold ofExpr? at h
  split at h
  next mark mark' value name ctx args =>
    split at h
    next named =>
      obtain rfl := Option.some.inj h
      exact ⟨rfl, rfl, value, rfl, mark', name, ctx, rfl, beq_iff_eq.1 named⟩
    · nomatch h
  · nomatch h

/-- Expressions that the tree does not use are tuples, so that all call sites come from the tree. -/
lemma ofModule_perm {m : Module} {file member : String} (laid : m.Laid) :
    (ofModule file member m).Perm (m.reachableExprs.filterMap (ofExpr? file member)) := by
  have unused : m.unused.filterMap (ofExpr? file member) = [] := by
    refine List.filterMap_eq_nil_iff.2 fun e he => ?_
    obtain ⟨mark, elements, ctx, parenthesized, rfl⟩ := laid.unused e he
    rfl
  refine (List.mergeSort_perm _ _).trans (((List.mergeSort_perm _ _).filterMap _).trans ?_)
  rw [List.filterMap_append, unused, List.append_nil]

/-- The call sites of a module stand in its tree. -/
theorem ofModule_stands {m : Module} {file member : String} {site : CallSite} (laid : m.Laid)
    (h : site ∈ ofModule file member m) : site.file = file ∧ ∃ receiver, site.Stands m receiver := by
  obtain ⟨e, he, is⟩ := List.mem_filterMap.1 ((ofModule_perm laid).mem_iff.1 h)
  obtain ⟨inFile, rfl, receiver, received, mark, name, ctx, callee, -⟩ := ofExpr?_ok is
  refine ⟨inFile, receiver, ?_, ⟨mark, name, ctx, callee⟩, received⟩
  obtain ⟨n, hn, isCall⟩ := Module.exists_node_of_mem_reachableExprs he
  rwa [← eq_read_of_load (laid.node hn).here.role isCall rfl]

/-- No call is listed twice. -/
lemma ofModule_serials {m : Module} {file member : String} (laid : m.Laid) :
    ((ofModule file member m).map (·.mark.serial)).Nodup := by
  refine (((ofModule_perm laid).map _).nodup_iff).2 (laid.serials_nodup.sublist ?_)
  rw [List.map_filterMap, ← List.filterMap_eq_map]
  refine filterMap_sublist fun e _ serial is => ?_
  obtain ⟨site, isSite, rfl⟩ := Option.map_eq_some_iff.1 is
  obtain ⟨-, rfl, -⟩ := ofExpr?_ok isSite
  rfl

end CallSite

end MethodLift
