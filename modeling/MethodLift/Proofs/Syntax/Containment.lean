import MethodLift.Proofs.Syntax.Nesting
import MethodLift.Proofs.Text.Spans

/-!
# Children stand inside their parents

What `Node.Fits` says of nodes in their roles, said of the lists that everything else goes through:
in the tree of a text without problems, the expressions and the statements directly inside a node
stand inside it, one behind the other (`children_hold`).  Spans that parentheses have widened and
spans of the fields of formatted strings are no exceptions.

The two lists of a statement are looked at apart, because in the text they are not: the type of an
`except` clause stands between the statements of two bodies.
-/

namespace MethodLift.Syntax

/-- Spans that lie inside another one, none of them empty, each behind the one before. -/
structure Holds (outer : Span) (inner : List Span) : Prop where
  inside : ∀ s ∈ inner, outer.contains s = true
  nonempty : ∀ s ∈ inner, s.start < s.stop
  apart : inner.Pairwise fun a b => a.stop ≤ b.start

/-- Some of the parts of a node that is laid, as spans. -/
lemma Node.Laid.holds {α : Type} {n : Node} {f : Node → Option α} {span : α → Span}
    (h : n.Laid) (same : ∀ c a, f c = some a → c.span = span a) :
    Holds n.span ((n.parts.filterMap f).map span) := by
  have part : ∀ s ∈ (n.parts.filterMap f).map span, ∃ c ∈ n.parts, c.span = s := by
    intro s hs
    obtain ⟨a, ha, rfl⟩ := List.mem_map.1 hs
    obtain ⟨c, hc, is⟩ := List.mem_filterMap.1 ha
    exact ⟨c, hc, same c a is⟩
  refine ⟨?_, ?_, ?_⟩
  · intro s hs
    obtain ⟨c, hc, rfl⟩ := part s hs
    have inside := h.here.inside c hc
    simp only [Span.contains, inside.1, inside.2, decide_true, Bool.and_self]
  · intro s hs
    obtain ⟨c, hc, rfl⟩ := part s hs
    exact (h.part hc).here.nonempty
  · refine List.pairwise_map.2 (h.here.apart.filterMap f ?_)
    intro c d before a is b is'
    rw [← same c a is, ← same d b is']
    exact before.stop_le

namespace Module

variable {m : Module}

lemma Laid.expr_holds (h : m.Laid) {e : Expr} (he : e ∈ m.reachableExprs) :
    Holds e.span (e.children.map Expr.span) := by
  obtain ⟨n, hn, is⟩ := exists_node_of_mem_reachableExprs he
  have children : n.parts.filterMap Node.expr? = e.children := by
    have all := congrArg (List.filterMap id) (Node.map_expr?_parts is)
    simpa [List.filterMap_map, Function.comp_def] using all
  have holds := (h.node hn).holds fun c d => Node.span_of_expr? (n := c) (e := d)
  rwa [children, Node.span_of_expr? is] at holds

/-- Whatever is inside an expression stands inside it. -/
lemma Laid.expr_contains (h : m.Laid) {e d : Expr} (he : e ∈ m.reachableExprs)
    (hd : d ∈ e.descendants) : e.span.contains d.span = true := by
  obtain ⟨n, hn, is⟩ := exists_node_of_mem_reachableExprs he
  obtain ⟨x, hx, is'⟩ := Node.exists_of_mem_descendants is hd
  have inside := ((h.node hn).descendant hx).2
  rw [← Node.span_of_expr? is, ← Node.span_of_expr? is']
  exact Span.contains_iff.2 inside

/-- Some text stands in at most one statement of the body. -/
lemma Laid.position_unique (h : m.Laid) {span : Span} (nonempty : span.start < span.stop) {i j : ℕ}
    {s s' : Stmt} (hs : m.body[i]? = some s) (inside : s.span.contains span = true)
    (hs' : m.body[j]? = some s') (inside' : s'.span.contains span = true) : i = j := by
  obtain ⟨a, b, row⟩ := h.row
  have apart : m.body.Pairwise fun s s' => s.span.stop ≤ s'.span.start :=
    (List.pairwise_map.1 row.apart).imp Node.Before.stop_le
  obtain ⟨li, rfl⟩ := List.getElem?_eq_some_iff.1 hs
  obtain ⟨lj, rfl⟩ := List.getElem?_eq_some_iff.1 hs'
  have ordered := List.pairwise_iff_getElem.1 apart
  rw [Span.contains_iff] at inside inside'
  rcases Nat.lt_trichotomy i j with lt | same | gt
  · have := ordered i j li lj lt
    omega
  · exact same
  · have := ordered j i lj li gt
    omega

lemma Laid.stmt_holds (h : m.Laid) {s : Stmt} (hs : s ∈ m.reachableStmts) :
    Holds s.span (s.exprs.map Expr.span) ∧ Holds s.span (s.children.map Stmt.span) := by
  have laid := h.node (stmt_mem_nodes.2 hs)
  have same : ∀ (c : Node) (d : Stmt), c.stmt? = some d → c.span = d.span := by
    rintro (_ | _ | d) _ ⟨⟩
    rfl
  refine ⟨?_, ?_⟩
  · have holds := laid.holds fun c d => Node.span_of_expr? (n := c) (e := d)
    rwa [Node.parts, Node.filterMap_expr?_ofStmt] at holds
  · have holds := laid.holds same
    rwa [Node.parts, Node.filterMap_stmt?_ofStmt] at holds

end Module

/-- In the tree of a text without problems every node holds what is directly inside it: the spans
lie in its own, none of them is empty, and they follow one another without overlap. -/
theorem children_hold {text : String} (valid : (parse text).problems = []) :
    (∀ s ∈ (parse text).module.reachableStmts,
      Holds s.span (s.exprs.map Expr.span) ∧ Holds s.span (s.children.map Stmt.span))
    ∧ ∀ e ∈ (parse text).module.reachableExprs, Holds e.span (e.children.map Expr.span) :=
  ⟨fun _ hs => (parse_laid valid).stmt_holds hs, fun _ he => (parse_laid valid).expr_holds he⟩

set_option maxRecDepth 100000 in
/-- The operands of a product, one of them in parentheses and one a field of a string. -/
theorem product_holds :
    let text := "x = (a + b) * f'\x7bc\x7d'\n"
    (parse text).problems = []
      ∧ ∀ s ∈ (parse text).module.reachableStmts,
        Holds s.span (s.exprs.map Expr.span) ∧ Holds s.span (s.children.map Stmt.span) := by
  intro text
  have valid : (parse text).problems = [] := by
    unfold text
    cbv
  exact ⟨valid, (children_hold valid).1⟩

end MethodLift.Syntax
