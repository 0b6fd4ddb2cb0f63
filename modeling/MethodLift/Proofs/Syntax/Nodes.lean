import MethodLift.Proofs.Lists
import MethodLift.Scope.Trace

/-!
# Nodes and their roles

Statements and expressions contain one another, and what an expression is there for depends on where
it stands: it is read, or it is assigned to or deleted.  A `Node` is a statement or an expression
together with this role.  The roles follow from the form of what is around: a `for` assigns to what
stands before `in`, an assignment expression to what stands before the walrus, and a target that is
a tuple, a list or a star makes its elements targets.

`Node.parts` lists what a node directly contains in the order of the text, which for a `try` is not
the order of `Stmt.exprs` and `Stmt.children` put together.  Statements about trees that look at
the text (what lies before what) or at names (what is bound where) go by the parts of nodes.
-/

namespace MethodLift.Syntax

/-- A statement, or an expression in its role. -/
inductive Node
  /-- An expression that is evaluated. -/
  | read (e : Expr)
  /-- An expression that is assigned to or deleted. -/
  | target (e : Expr)
  | stmt (s : Stmt)
deriving Inhabited

namespace Node

/-- Expressions that are evaluated. -/
def reads (es : List Expr) : List Node := es.map .read

/-- Expressions that are assigned to or deleted. -/
def targets (es : List Expr) : List Node := es.map .target

/-- Statements as nodes. -/
def stmts (ss : List Stmt) : List Node := ss.map .stmt

@[simp] lemma reads_nil : reads [] = [] := rfl
@[simp] lemma reads_cons (e : Expr) (es : List Expr) : reads (e :: es) = .read e :: reads es := rfl
@[simp] lemma reads_append (es ds : List Expr) : reads (es ++ ds) = reads es ++ reads ds :=
  List.map_append
@[simp] lemma stmts_nil : stmts [] = [] := rfl
@[simp] lemma stmts_cons (s : Stmt) (ss : List Stmt) : stmts (s :: ss) = .stmt s :: stmts ss := rfl
@[simp] lemma stmts_append (ss ds : List Stmt) : stmts (ss ++ ds) = stmts ss ++ stmts ds :=
  List.map_append

/-- Things that each hold one expression that is evaluated. -/
@[simp] lemma flatMap_read {α : Type} (xs : List α) (f : α → Expr) :
    xs.flatMap (fun x => [.read (f x)]) = reads (xs.map f) := by
  induction xs with
  | nil => rfl
  | cons x xs ih => simp [ih]

/-- Things that each hold some expressions that are evaluated. -/
@[simp] lemma flatMap_reads {α : Type} (xs : List α) (f : α → List Expr) :
    xs.flatMap (fun x => reads (f x)) = reads (xs.flatMap f) := by
  induction xs with
  | nil => rfl
  | cons x xs ih => simp [ih]

/-- The expression that a node is. -/
def expr? : Node → Option Expr
  | read e | target e => some e
  | stmt _ => none

/-- The statement that a node is. -/
def stmt? : Node → Option Stmt
  | stmt s => some s
  | _ => none

/-- Where a node stands. -/
def span : Node → Span
  | read e | target e => e.span
  | stmt s => s.span

/-- Which node: its serial number among the expressions or among the statements. -/
def key : Node → Scope.ScopeKey
  | read e | target e => .expr e.serial
  | stmt s => .stmt s.serial

@[simp] lemma expr?_read (e : Expr) : (read e).expr? = some e := rfl
@[simp] lemma expr?_target (e : Expr) : (target e).expr? = some e := rfl
@[simp] lemma expr?_stmt (s : Stmt) : (stmt s).expr? = none := rfl
@[simp] lemma stmt?_read (e : Expr) : (read e).stmt? = none := rfl
@[simp] lemma stmt?_target (e : Expr) : (target e).stmt? = none := rfl
@[simp] lemma stmt?_stmt (s : Stmt) : (stmt s).stmt? = some s := rfl
@[simp] lemma span_read (e : Expr) : (read e).span = e.span := rfl
@[simp] lemma span_target (e : Expr) : (target e).span = e.span := rfl
@[simp] lemma span_stmt (s : Stmt) : (stmt s).span = s.span := rfl

lemma span_of_expr? {n : Node} {e : Expr} (h : n.expr? = some e) : n.span = e.span := by
  cases n with
  | read | target =>
    obtain rfl := Option.some.inj h
    rfl
  | stmt => nomatch h

lemma key_of_expr? {n : Node} {e : Expr} (h : n.expr? = some e) : n.key = .expr e.serial := by
  cases n with
  | read | target =>
    obtain rfl := Option.some.inj h
    rfl
  | stmt => nomatch h

/-! ## Parts -/

/-- The parts of a clause of a comprehension. -/
def ofGenerator (g : Generator Expr) : List Node :=
  target g.target :: read g.iter :: reads g.conditions

/-- The parts of an entry of a `with`. -/
def ofWithItem (item : WithItem) : List Node :=
  read item.context :: targets item.target.toList

/-- The parts of an `except` clause. -/
def ofHandler (h : Handler Stmt) : List Node := reads h.type.toList ++ stmts h.body

/-- The parts of an expression that is evaluated. -/
def ofRead : Expr → List Node
  | .named _ t value => [target t, read value]
  | .comprehension _ _ element value generators =>
    read element :: reads value.toList ++ generators.flatMap ofGenerator
  | e => reads e.children

/-- The parts of an expression that is assigned to: a star, a tuple or a list hands its role on. -/
def ofTarget : Expr → List Node
  | .starred _ value _ => [target value]
  | .tuple _ elements _ _ | .list _ elements _ => targets elements
  | e => ofRead e

/-- The parts of a statement. -/
def ofStmt : Stmt → List Node
  | .delete _ ts => targets ts
  | .assign _ ts value => targets ts ++ [read value]
  | .augAssign _ t _ value => [target t, read value]
  | .annAssign _ t annotation value => target t :: read annotation :: reads value.toList
  | .forLoop _ _ t iter body orelse =>
    target t :: read iter :: stmts body ++ stmts orelse
  | .withBlock _ _ items body => items.flatMap ofWithItem ++ stmts body
  | .tryBlock _ body handlers orelse finalbody =>
    stmts body ++ handlers.flatMap ofHandler ++ stmts orelse ++ stmts finalbody
  | s => reads s.exprs ++ stmts s.children

/-- What a node directly contains, in the order of the text. -/
def parts : Node → List Node
  | read e => ofRead e
  | target e => ofTarget e
  | stmt s => ofStmt s

/-! ## Parts, expressions and statements -/

@[simp] lemma filterMap_expr?_reads (es : List Expr) : (reads es).filterMap expr? = es := by
  simp [reads, List.filterMap_map, Function.comp_def]

@[simp] lemma filterMap_expr?_targets (es : List Expr) : (targets es).filterMap expr? = es := by
  simp [targets, List.filterMap_map, Function.comp_def]

@[simp] lemma filterMap_expr?_stmts (ss : List Stmt) : (stmts ss).filterMap expr? = [] := by
  simp [stmts]

@[simp] lemma filterMap_stmt?_reads (es : List Expr) : (reads es).filterMap stmt? = [] := by
  simp [reads]

@[simp] lemma filterMap_stmt?_targets (es : List Expr) : (targets es).filterMap stmt? = [] := by
  simp [targets]

@[simp] lemma filterMap_stmt?_stmts (ss : List Stmt) : (stmts ss).filterMap stmt? = ss := by
  simp [stmts, List.filterMap_map, Function.comp_def]

@[simp] lemma filterMap_expr?_ofGenerator (g : Generator Expr) :
    (ofGenerator g).filterMap expr? = g.exprs := by
  simp [ofGenerator, Generator.exprs]

@[simp] lemma filterMap_stmt?_ofGenerator (g : Generator Expr) :
    (ofGenerator g).filterMap stmt? = [] := by
  simp [ofGenerator, List.filterMap_cons, -List.filterMap_eq_nil_iff]

/-- The expressions among the parts of an expression are those directly inside it. -/
lemma filterMap_expr?_ofRead (e : Expr) : (ofRead e).filterMap expr? = e.children := by
  cases e <;> simp [ofRead, Expr.children, List.filterMap_flatMap]

lemma filterMap_expr?_ofTarget (e : Expr) : (ofTarget e).filterMap expr? = e.children := by
  unfold ofTarget
  split
  · simp [Expr.children]
  · simp [Expr.children]
  · simp [Expr.children]
  · exact filterMap_expr?_ofRead e

lemma filterMap_stmt?_ofRead (e : Expr) : (ofRead e).filterMap stmt? = [] := by
  cases e <;> simp [ofRead, List.filterMap_flatMap, List.filterMap_cons,
    -List.filterMap_eq_nil_iff]

lemma filterMap_stmt?_ofTarget (e : Expr) : (ofTarget e).filterMap stmt? = [] := by
  unfold ofTarget
  split
  · simp
  · simp
  · simp
  · exact filterMap_stmt?_ofRead e

/-- The expressions among the parts of a statement are those that belong to it. -/
lemma filterMap_expr?_ofStmt (s : Stmt) : (ofStmt s).filterMap expr? = s.exprs := by
  cases s <;> simp [ofStmt, Stmt.exprs, List.filterMap_flatMap, ofWithItem, ofHandler]

/-- The statements among the parts of a statement are those in its bodies. -/
lemma filterMap_stmt?_ofStmt (s : Stmt) : (ofStmt s).filterMap stmt? = s.children := by
  cases s <;> simp [ofStmt, Stmt.children, List.filterMap_flatMap, ofWithItem, ofHandler,
    List.filterMap_cons, -List.filterMap_eq_nil_iff]

/-- The parts of an expression, whatever its role, are the expressions directly inside it. -/
lemma map_expr?_parts {n : Node} {e : Expr} (is : n.expr? = some e) :
    n.parts.map expr? = e.children.map some := by
  have inner : n.parts.filterMap expr? = e.children ∧ n.parts.filterMap stmt? = [] := by
    cases n with
    | read e' =>
      obtain rfl := Option.some.inj is
      exact ⟨filterMap_expr?_ofRead _, filterMap_stmt?_ofRead _⟩
    | target e' =>
      obtain rfl := Option.some.inj is
      exact ⟨filterMap_expr?_ofTarget _, filterMap_stmt?_ofTarget _⟩
    | stmt s => nomatch is
  obtain ⟨children, noStmt⟩ := inner
  rw [← children, List.map_filterMap]
  refine (List.filterMap_eq_map_iff_forall_eq_some.2 fun c hc => ?_).symm
  cases c with
  | read | target => rfl
  | stmt s => nomatch List.filterMap_eq_nil_iff.1 noStmt _ hc

lemma expr?_of_mem_parts {n c : Node} {e : Expr} (is : n.expr? = some e) (hc : c ∈ n.parts) :
    ∃ d ∈ e.children, c.expr? = some d := by
  have some : c.expr? ∈ e.children.map some := map_expr?_parts is ▸ List.mem_map_of_mem hc
  obtain ⟨d, hd, is⟩ := List.mem_map.1 some
  exact ⟨d, hd, is.symm⟩

/-- Going through nodes one by one is going through the expressions and through the statements among
them. -/
lemma flatMap_perm {α : Type} {ns : List Node} {ofNode : Node → List α} {ofExpr : Expr → List α}
    {ofStmt : Stmt → List α}
    (exprs : ∀ c ∈ ns, ∀ e, c.expr? = some e → (ofExpr e).Perm (ofNode c))
    (stmts : ∀ s, stmt s ∈ ns → (ofStmt s).Perm (ofNode (stmt s))) :
    ((ns.filterMap expr?).flatMap ofExpr ++ (ns.filterMap stmt?).flatMap ofStmt).Perm
      (ns.flatMap ofNode) := by
  induction ns with
  | nil => exact .refl _
  | cons c ns ih =>
    have rest := ih (fun d hd => exprs d (List.mem_cons_of_mem _ hd))
      fun s hs => stmts s (List.mem_cons_of_mem _ hs)
    have expr {e : Expr} (is : c.expr? = some e) (noStmt : c.stmt? = none) :
        (((c :: ns).filterMap expr?).flatMap ofExpr
          ++ ((c :: ns).filterMap stmt?).flatMap ofStmt).Perm ((c :: ns).flatMap ofNode) := by
      rw [List.filterMap_cons_some is, List.filterMap_cons_none noStmt, List.flatMap_cons,
        List.flatMap_cons, List.append_assoc]
      exact (exprs c List.mem_cons_self e is).append rest
    cases c with
    | read e | target e => exact expr rfl rfl
    | stmt s =>
      rw [List.filterMap_cons_none rfl, List.filterMap_cons_some (stmt?_stmt s),
        List.flatMap_cons, List.flatMap_cons, ← List.append_assoc]
      refine (List.perm_append_comm.append_right _).trans ?_
      rw [List.append_assoc]
      exact (stmts s List.mem_cons_self).append rest

/-- The statements among the parts of a statement are directly inside it. -/
lemma mem_children_of_mem_ofStmt {s d : Stmt} (h : stmt d ∈ ofStmt s) : d ∈ s.children :=
  filterMap_stmt?_ofStmt s ▸ List.mem_filterMap.2 ⟨_, h, rfl⟩

/-- A measure that parts have less of: statements come above expressions, and within one sort the
larger above the smaller. -/
noncomputable def size : Node → ℕ × ℕ
  | read e | target e => (0, sizeOf e)
  | stmt s => (1, sizeOf s)

lemma size_eq_of_expr? {n : Node} {e : Expr} (h : n.expr? = some e) : n.size = (0, sizeOf e) := by
  cases n with
  | read | target =>
    obtain rfl := Option.some.inj h
    rfl
  | stmt s => nomatch h

theorem size_lt_of_mem_parts {n c : Node} (h : c ∈ n.parts) :
    Prod.Lex (· < ·) (· < ·) c.size n.size := by
  cases known : n.expr? with
  | some e =>
    obtain ⟨d, hd, is⟩ := expr?_of_mem_parts known h
    rw [size_eq_of_expr? known, size_eq_of_expr? is]
    exact .right _ (Expr.sizeOf_lt_of_mem_children hd)
  | none =>
    cases n with
    | read | target => nomatch known
    | stmt s =>
      cases inner : c.expr? with
      | some d =>
        rw [size_eq_of_expr? inner]
        exact .left _ _ Nat.zero_lt_one
      | none =>
        cases c with
        | read | target => nomatch inner
        | stmt d => exact .right _ (Stmt.sizeOf_lt_of_mem_children (mem_children_of_mem_ofStmt h))

/-- A node and everything inside it, each node before its parts and the parts in the order of the
text. -/
def all (n : Node) : List Node := n :: n.parts.attach.flatMap fun c => all c.1
termination_by n.size
decreasing_by exact size_lt_of_mem_parts c.2

theorem all_eq (n : Node) : n.all = n :: n.parts.flatMap all := by
  rw [all]
  congr 1
  conv => rhs; rw [← List.attach_map_subtype_val n.parts, List.flatMap_map]

lemma self_mem_all (n : Node) : n ∈ n.all := by
  rw [all_eq]
  exact List.mem_cons_self

lemma mem_all {n x : Node} : x ∈ n.all ↔ x = n ∨ ∃ c ∈ n.parts, x ∈ c.all := by
  rw [all_eq, List.mem_cons, List.mem_flatMap]

/-- Induction over what is inside a node. -/
@[elab_as_elim]
theorem induction {motive : Node → Prop}
    (step : ∀ n : Node, (∀ c ∈ n.parts, motive c) → motive n) (n : Node) : motive n :=
  step n fun c _ => induction step c
termination_by n.size
decreasing_by exact size_lt_of_mem_parts ‹_›

end Node

end MethodLift.Syntax
