import MethodLift.Proofs.Syntax.LaidStatements

/-!
# Nodes of a module lie in or beside one another

What follows for a whole module from its statements being a row: of two nodes one contains the other
or they lie apart, a number belongs to one node, and a node is a part of at most one other.  The
lists of a module that other definitions go through (`Module.reachableStmts`, `Module.exprs`) hold
the statements and the expressions among these nodes.
-/

namespace MethodLift.Syntax

open Scope (ScopeKey)

/-- All nodes of a module, each before what is inside it. -/
def Module.nodes (m : Module) : List Node := (Node.stmts m.body).flatMap Node.all

/-- A module whose statements are a row, and that has set nothing aside but tuples. -/
structure Module.Laid (m : Module) : Prop where
  row : ∃ a b, Row a b (Node.stmts m.body)
  unused : ∀ e ∈ m.unused, e.IsTuple

/-- The module of a text without problems. -/
theorem parse_laid {text : String} (valid : (parse text).problems = []) :
    (parse text).module.Laid := by
  obtain ⟨a, b, row, unused⟩ := parse_row valid
  exact ⟨⟨a, b, row⟩, unused⟩

namespace Node

variable {n x y : Node}

/-- What is inside something inside a node is inside the node. -/
lemma mem_all_trans (hx : x ∈ n.all) (hy : y ∈ x.all) : y ∈ n.all := by
  induction n using Node.induction with
  | step n ih =>
    rcases mem_all.1 hx with rfl | ⟨c, hc, hx⟩
    · exact hy
    · exact mem_all.2 (.inr ⟨c, hc, ih c hc hx⟩)

lemma part_mem_all {c : Node} (hc : c ∈ n.parts) : c ∈ n.all :=
  mem_all.2 (.inr ⟨c, hc, self_mem_all c⟩)

/-- Inside an expression there are expressions only. -/
lemma exists_expr?_of_mem_all {e : Expr} (is : n.expr? = some e) (hx : x ∈ n.all) :
    ∃ d, x.expr? = some d := by
  induction n using Node.induction generalizing e with
  | step n ih =>
    rcases mem_all.1 hx with rfl | ⟨c, hc, hx⟩
    · exact ⟨e, is⟩
    · obtain ⟨d, -, isExpr⟩ := expr?_of_mem_parts is hc
      exact ih c hc isExpr hx

/-- The expressions inside an expression. -/
lemma filterMap_expr?_all {e : Expr} (is : n.expr? = some e) :
    n.all.filterMap expr? = e.descendants := by
  induction n using Node.induction generalizing e with
  | step n ih =>
    have inside {ns : List Node} {es : List Expr} (sub : ns ⊆ n.parts)
        (are : ns.map expr? = es.map some) :
        (ns.flatMap fun c => c.all.filterMap expr?) = es.flatMap Expr.descendants := by
      induction ns generalizing es with
      | nil =>
        obtain rfl := List.map_eq_nil_iff.1 are.symm
        rfl
      | cons c ns ihs =>
        cases es with
        | nil => nomatch are
        | cons d es =>
          obtain ⟨is, are⟩ := List.cons.inj are
          rw [List.flatMap_cons, List.flatMap_cons, ih c (sub List.mem_cons_self) is,
            ihs (fun x hx => sub (List.mem_cons_of_mem _ hx)) are]
    rw [all_eq, List.filterMap_cons_some is, List.filterMap_flatMap, Expr.descendants_eq,
      inside (List.Subset.refl _) (map_expr?_parts is)]

/-- An expression inside the expression that a node is, as a node inside the node. -/
lemma exists_of_mem_descendants {e d : Expr} (is : n.expr? = some e) (hd : d ∈ e.descendants) :
    ∃ x ∈ n.all, x.expr? = some d :=
  List.mem_filterMap.1 (filterMap_expr?_all is ▸ hd)

/-- The expressions inside a statement. -/
lemma filterMap_expr?_all_stmt (s : Stmt) :
    ((stmt s).all.filterMap expr?).Perm (s.descendants.flatMap Module.exprsOfStmt) := by
  generalize same : stmt s = n
  induction n using Node.induction generalizing s with
  | step n ih =>
    subst same
    rw [all_eq, List.filterMap_cons_none (expr?_stmt s), List.filterMap_flatMap,
      Stmt.descendants_eq, List.flatMap_cons, List.flatMap_assoc, Module.exprsOfStmt,
      ← filterMap_expr?_ofStmt, ← filterMap_stmt?_ofStmt]
    refine (flatMap_perm (fun c hc e is => ?_) fun d hd => (ih _ hd d rfl).symm).symm
    rw [filterMap_expr?_all is]

/-- A statement inside a statement, as a node. -/
lemma stmt_mem_all {s d : Stmt} (hd : d ∈ s.descendants) : stmt d ∈ (stmt s).all := by
  generalize same : stmt s = n
  induction n using Node.induction generalizing s with
  | step n ih =>
    subst same
    rw [Stmt.descendants_eq, List.mem_cons, List.mem_flatMap] at hd
    rcases hd with rfl | ⟨c, hc, hd⟩
    · exact self_mem_all _
    · rw [← filterMap_stmt?_ofStmt, List.mem_filterMap] at hc
      obtain ⟨p, hp, isPart⟩ := hc
      have same : stmt c = p := by
        cases p with
        | stmt s' => rw [Option.some.inj isPart]
        | read | target => nomatch isPart
      exact mem_all.2 (.inr ⟨p, hp, ih p hp hd same⟩)

/-- The statements inside a statement are its descendants. -/
lemma mem_descendants {s d : Stmt} (hd : stmt d ∈ (stmt s).all) : d ∈ s.descendants := by
  generalize same : stmt s = n at hd
  induction n using Node.induction generalizing s with
  | step n ih =>
    subst same
    rw [Stmt.descendants_eq, List.mem_cons, List.mem_flatMap]
    rcases mem_all.1 hd with is | ⟨c, hc, hd⟩
    · obtain rfl := Node.stmt.inj is
      exact .inl rfl
    · cases c with
      | stmt s' => exact .inr ⟨s', mem_children_of_mem_ofStmt hc, ih _ hc rfl hd⟩
      | read e => exact absurd hd (noStmt rfl)
      | target e => exact absurd hd (noStmt rfl)
where
  /-- No statement is inside an expression. -/
  noStmt {n : Node} {e : Expr} {d : Stmt} (is : n.expr? = some e) : stmt d ∉ n.all := by
    induction n using Node.induction generalizing e with
    | step n ih =>
      intro hd
      rcases mem_all.1 hd with rfl | ⟨c, hc, hd⟩
      · nomatch is
      · obtain ⟨e', -, isPart⟩ := expr?_of_mem_parts is hc
        exact ih c hc isPart hd

end Node

namespace Module

variable {m : Module} {x y : Node}

lemma mem_nodes_of_mem_all (hx : x ∈ m.nodes) (hy : y ∈ x.all) : y ∈ m.nodes := by
  obtain ⟨n, hn, hx⟩ := List.mem_flatMap.1 hx
  exact List.mem_flatMap.2 ⟨n, hn, Node.mem_all_trans hx hy⟩

lemma mem_nodes_of_mem_parts (hx : x ∈ m.nodes) (hy : y ∈ x.parts) : y ∈ m.nodes :=
  mem_nodes_of_mem_all hx (Node.part_mem_all hy)

/-- The statements of a module are its nodes. -/
lemma stmt_mem_nodes {s : Stmt} : .stmt s ∈ m.nodes ↔ s ∈ m.reachableStmts := by
  constructor
  · intro h
    obtain ⟨n, hn, h⟩ := List.mem_flatMap.1 h
    obtain ⟨d, hd, rfl⟩ := List.mem_map.1 hn
    exact List.mem_flatMap.2 ⟨d, hd, Node.mem_descendants h⟩
  · intro h
    obtain ⟨d, hd, h⟩ := List.mem_flatMap.1 h
    exact List.mem_flatMap.2 ⟨.stmt d, List.mem_map_of_mem hd, Node.stmt_mem_all h⟩

/-- The expressions of a statement of a module are nodes inside it. -/
lemma exists_node_of_mem_exprsOfStmt {s : Stmt} {e : Expr} (h : e ∈ exprsOfStmt s) :
    ∃ c ∈ (Node.stmt s).parts, ∃ x ∈ c.all, x.expr? = some e := by
  obtain ⟨d, hd, h⟩ := List.mem_flatMap.1 h
  rw [← Node.filterMap_expr?_ofStmt, List.mem_filterMap] at hd
  obtain ⟨c, hc, is⟩ := hd
  exact ⟨c, hc, Node.exists_of_mem_descendants is h⟩

lemma exists_node_of_mem_reachableExprs {e : Expr} (h : e ∈ m.reachableExprs) :
    ∃ x ∈ m.nodes, x.expr? = some e := by
  obtain ⟨s, hs, h⟩ := List.mem_flatMap.1 h
  obtain ⟨c, hc, x, hx, is⟩ := exists_node_of_mem_exprsOfStmt h
  have inside := Node.mem_all.2 (.inr ⟨c, hc, hx⟩)
  exact ⟨x, mem_nodes_of_mem_all (stmt_mem_nodes.2 hs) inside, is⟩

/-- The expressions among the nodes of a module. -/
lemma filterMap_expr?_nodes : (m.nodes.filterMap Node.expr?).Perm m.reachableExprs := by
  rw [nodes, Node.stmts, List.flatMap_map, List.filterMap_flatMap, reachableExprs, reachableStmts,
    List.flatMap_assoc]
  exact List.Perm.flatMap_left _ fun s _ => Node.filterMap_expr?_all_stmt s

lemma mem_exprs {e : Expr} : e ∈ m.exprs ↔ e ∈ m.reachableExprs ∨ e ∈ m.unused := by
  rw [exprs, List.mem_mergeSort, List.mem_append]

/-- What the list of statements around statements holds. -/
lemma mem_stmtParents {p : Stmt} {serial : ℕ} : (serial, p) ∈ m.stmtParents
    ↔ p ∈ m.reachableStmts ∧ ∃ c ∈ p.children, c.serial = serial := by
  simp only [stmtParents, List.mem_flatMap, List.mem_map, Prod.mk.injEq]
  constructor
  · rintro ⟨q, hq, c, hc, rfl, rfl⟩
    exact ⟨hq, c, hc, rfl⟩
  · rintro ⟨hp, c, hc, rfl⟩
    exact ⟨p, hp, c, hc, rfl, rfl⟩

lemma stmt_mem_parts {s p : Stmt} (hc : s ∈ p.children) : Node.stmt s ∈ (Node.stmt p).parts := by
  rw [← Node.filterMap_stmt?_ofStmt, List.mem_filterMap] at hc
  obtain ⟨n, hn, is⟩ := hc
  cases n with
  | stmt s' =>
    obtain rfl := Option.some.inj is
    exact hn
  | read | target => nomatch is

lemma child_mem_reachableStmts {s p : Stmt} (hp : p ∈ m.reachableStmts) (hc : s ∈ p.children) :
    s ∈ m.reachableStmts :=
  stmt_mem_nodes.1 (mem_nodes_of_mem_parts (stmt_mem_nodes.2 hp) (stmt_mem_parts hc))

namespace Laid

variable (h : m.Laid)
include h

/-- Each node of a module is laid. -/
lemma node (hx : x ∈ m.nodes) : x.Laid := by
  obtain ⟨a, b, row⟩ := h.row
  obtain ⟨n, hn, hx⟩ := List.mem_flatMap.1 hx
  exact ((row.laid n hn).descendant hx).1

/-- The first one of two nodes contains the second one or ends before it. -/
lemma pairwise : m.nodes.Pairwise fun x y => y ∈ x.all ∨ x.span.stop ≤ y.span.start := by
  obtain ⟨a, b, row⟩ := h.row
  refine List.pairwise_flatMap.2 ⟨fun n hn => (row.laid n hn).pairwise, ?_⟩
  refine row.apart.imp_of_mem ?_
  intro c d hc hd before x hx y hy
  have left := ((row.laid c hc).descendant hx).2.2
  have right := ((row.laid d hd).descendant hy).2.1
  exact .inr (Nat.le_trans left (Nat.le_trans before.stop_le right))

/-- Of two nodes one contains the other, or they lie apart. -/
theorem nested_or_apart (hx : x ∈ m.nodes) (hy : y ∈ m.nodes) :
    (y ∈ x.all ∨ x ∈ y.all) ∨ x.span.stop ≤ y.span.start ∨ y.span.stop ≤ x.span.start := by
  let Related (x y : Node) : Prop := (y ∈ x.all ∨ x ∈ y.all)
    ∨ x.span.stop ≤ y.span.start ∨ y.span.stop ≤ x.span.start
  have symm : Std.Symm Related := ⟨fun _ _ related => related.imp Or.symm Or.symm⟩
  have each : m.nodes.Pairwise Related :=
    h.pairwise.imp fun related => related.imp .inl .inl
  exact each.forall_of_forall (fun a _ => .inl (.inl (Node.self_mem_all a))) hx hy

/-- No number belongs to two nodes. -/
lemma keys_nodup : (m.nodes.map Node.key).Nodup := by
  obtain ⟨a, b, row⟩ := h.row
  rw [nodes, List.map_flatMap, List.nodup_flatMap]
  refine ⟨fun n hn => (row.laid n hn).keys_nodup, ?_⟩
  exact row.apart.imp Node.Before.disjoint

/-- No number belongs to two expressions. -/
lemma serials_nodup : (m.reachableExprs.map (·.serial)).Nodup := by
  have exprs : ((m.nodes.filterMap Node.expr?).map fun e => ScopeKey.expr e.serial).Nodup := by
    refine List.Nodup.sublist ?_ h.keys_nodup
    rw [List.map_filterMap, ← List.filterMap_eq_map]
    refine filterMap_sublist fun n _ key is => ?_
    obtain ⟨e, isExpr, rfl⟩ := Option.map_eq_some_iff.1 is
    exact congrArg some (Node.key_of_expr? isExpr)
  have perm := (filterMap_expr?_nodes (m := m)).map fun e => ScopeKey.expr e.serial
  have keys : ((m.reachableExprs.map (·.serial)).map ScopeKey.expr).Nodup := by
    rw [List.map_map]
    exact perm.nodup_iff.1 exprs
  exact List.Nodup.of_map _ keys

theorem eq_of_key (hx : x ∈ m.nodes) (hy : y ∈ m.nodes) (same : x.key = y.key) : x = y :=
  List.inj_on_of_nodup_map h.keys_nodup hx hy same

/-- Different parts of a node have no number in common. -/
lemma parts_disjoint {c d : Node} (hx : x ∈ m.nodes) (hc : c ∈ x.parts) (hd : d ∈ x.parts)
    (other : c ≠ d) : c.keys.Disjoint d.keys := by
  have symm : Std.Symm fun c d : Node => c.keys.Disjoint d.keys := ⟨fun _ _ apart => apart.symm⟩
  exact ((h.node hx).here.apart.imp Node.Before.disjoint).forall hc hd other

/-- A node is a part of one node only. -/
theorem parent_unique {p q c : Node} (hp : p ∈ m.nodes) (hq : q ∈ m.nodes) (hc : c ∈ p.parts)
    (hc' : c ∈ q.parts) : p = q := by
  have inside {p q : Node} (hp : p ∈ m.nodes) (hc : c ∈ p.parts) (hc' : c ∈ q.parts)
      (hq : q ∈ p.all) : p = q := by
    rcases Node.mem_all.1 hq with rfl | ⟨d, hd, hq⟩
    · rfl
    have inner : c ∈ d.all := Node.mem_all_trans hq (Node.part_mem_all hc')
    by_cases same : c = d
    · -- a node would be inside one of its own parts
      subst same
      have own := (h.node (mem_nodes_of_mem_all (mem_nodes_of_mem_parts hp hd) hq)).here.own c hc'
      exact absurd (List.mem_map_of_mem hq) own
    · have apart := h.parts_disjoint hp hc hd same
      exact absurd (List.mem_map_of_mem inner) (apart (List.mem_map_of_mem (Node.self_mem_all c)))
  rcases h.nested_or_apart hp hq with (into | into) | apart
  · exact inside hp hc hc' into
  · exact (inside hq hc' hc into).symm
  · have some := (h.node (mem_nodes_of_mem_parts hp hc)).here.nonempty
    have left := (h.node hp).here.inside c hc
    have right := (h.node hq).here.inside c hc'
    omega

end Laid

end Module

end MethodLift.Syntax
