import MethodLift.Proofs.Syntax.Rows
import MethodLift.Proofs.Syntax.Segments

/-!
# Numbers of nodes

Nodes are numbered in the order in which they are completed, so of a node and what is inside it the
node has the larger number, and two trees that were completed one after the other have no number in
common.  This is so for every text: where a text has problems, nodes may stand anywhere and some may
be dropped, but each is still numbered once.

`Numbered` collects what is needed of the nodes that were completed between two points: those that
will be used, and those that were dropped.  The nodes of a written form (`Segment.nodes`) are what is
directly inside the node that it is the form of.
-/

namespace MethodLift.Syntax

open Scope (ScopeKey)

/-! ## The nodes of a written form -/

namespace Segment

/-- The node that a segment holds. -/
def node? : Segment → Option Node
  | field e | part _ e => some (.read e)
  | stmt s => some (.stmt s)
  | _ => none

/-- The nodes that segments hold. -/
def nodes (xs : List Segment) : List Node := xs.filterMap node?

variable {α : Type}

@[simp] lemma nodes_nil : nodes [] = [] := rfl
@[simp] lemma nodes_append (xs ys : List Segment) : nodes (xs ++ ys) = nodes xs ++ nodes ys :=
  List.filterMap_append
@[simp] lemma nodes_token (k : TokenKind) (xs : List Segment) :
    nodes (.token k :: xs) = nodes xs := rfl
@[simp] lemma nodes_optional (ks : List TokenKind) (xs : List Segment) :
    nodes (.optional ks :: xs) = nodes xs := rfl
@[simp] lemma nodes_id (text : String) (xs : List Segment) : nodes (.id text :: xs) = nodes xs :=
  rfl
@[simp] lemma nodes_name (i : Ident) (xs : List Segment) : nodes (.name i :: xs) = nodes xs := rfl
@[simp] lemma nodes_path (dotted : String) (xs : List Segment) :
    nodes (.path dotted :: xs) = nodes xs := rfl
@[simp] lemma nodes_dots (level : ℕ) (xs : List Segment) : nodes (.dots level :: xs) = nodes xs :=
  rfl
@[simp] lemma nodes_gap (xs : List Segment) : nodes (.gap :: xs) = nodes xs := rfl
@[simp] lemma nodes_strings (kind : Option ConstantKind) (xs : List Segment) :
    nodes (.strings kind :: xs) = nodes xs := rfl
@[simp] lemma nodes_field (e : Expr) (xs : List Segment) :
    nodes (.field e :: xs) = .read e :: nodes xs := rfl
@[simp] lemma nodes_part (p : Position) (e : Expr) (xs : List Segment) :
    nodes (.part p e :: xs) = .read e :: nodes xs := rfl
@[simp] lemma nodes_stmt (s : Stmt) (xs : List Segment) :
    nodes (.stmt s :: xs) = .stmt s :: nodes xs := rfl

/-- Nodes of several things. -/
lemma nodes_flatMap (as : List α) (f : α → List Segment) :
    nodes (as.flatMap f) = as.flatMap fun a => nodes (f a) := List.filterMap_flatMap

@[simp] lemma nodes_list (items : List (List Segment)) :
    nodes (list items) = items.flatMap nodes := by
  cases items with
  | nil => rfl
  | cons item items => simp [list, nodes_flatMap]

@[simp] lemma nodes_parts (p : Position) (es : List Expr) : nodes (parts p es) = Node.reads es := by
  simp [parts, List.flatMap_map]

@[simp] lemma nodes_joined (kind : TokenKind) (p : Position) (es : List Expr) :
    nodes (joined kind p es) = Node.reads es := by
  cases es with
  | nil => rfl
  | cons e es => simp [joined, nodes_flatMap]

@[simp] lemma nodes_words (ks : List TokenKind) : nodes (ks.map .token) = [] := by
  simp [nodes, node?]

@[simp] lemma nodes_map_part (p : Position) (es : List Expr) :
    nodes (es.map (.part p)) = Node.reads es := by
  simp [nodes, node?, Node.reads, List.filterMap_map, Function.comp_def]

@[simp] lemma nodes_map_field (es : List Expr) : nodes (es.map .field) = Node.reads es := by
  simp [nodes, node?, Node.reads, List.filterMap_map, Function.comp_def]

@[simp] lemma nodes_compared (ops : List CompareOp) (es : List Expr) :
    nodes (compared ops es) = Node.reads es := by
  fun_induction compared ops es with
  | case1 op ops e es ih => simp [ih]
  | case2 es => exact nodes_map_part _ es
  | case3 => rfl

@[simp] lemma nodes_after (s : Symbol) (p : Position) (o : Option Expr) :
    nodes (after s p o) = Node.reads o.toList := by
  cases o <;> rfl

@[simp] lemma nodes_afterWord (k : Keyword) (p : Position) (o : Option Expr) :
    nodes (afterWord k p o) = Node.reads o.toList := by
  cases o <;> rfl

@[simp] lemma nodes_maybe (p : Position) (o : Option Expr) :
    nodes (maybe p o) = Node.reads o.toList := by
  cases o <;> rfl

@[simp] lemma nodes_lines (ss : List Stmt) : nodes (lines ss) = Node.stmts ss := by
  simp [lines, nodes_flatMap, Node.stmts, ← List.map_eq_flatMap]

@[simp] lemma nodes_block (ss : List Stmt) : nodes (block ss) = Node.stmts ss := by
  simp [block]

@[simp] lemma nodes_blockAfter (k : Keyword) (ss : List Stmt) :
    nodes (blockAfter k ss) = Node.stmts ss := by
  simp [blockAfter]

end Segment

open Segment (nodes)

@[simp] lemma Arg.nodes_segments (a : Arg Expr) : nodes a.segments = [.read a.value] := by
  unfold segments
  split <;> rfl

@[simp] lemma Param.nodes_segments (p : Param Expr) :
    nodes p.segments = Node.reads (p.annotation.toList ++ p.default.toList) := by
  have kind : nodes p.kind.segments = [] := by cases p.kind <;> rfl
  have name : nodes (p.name.toList.map Segment.name) = [] := by cases p.name <;> rfl
  simp [segments, kind, name]

@[simp] lemma Generator.nodes_segments (g : Generator Expr) :
    nodes g.segments = Node.reads g.exprs := by
  have word : nodes (if g.isAsync then [Segment.word .kAsync] else []) = [] := by
    split <;> rfl
  simp [segments, word, Segment.nodes_flatMap, Generator.exprs]

@[simp] lemma DictItem.nodes_segments (item : DictItem Expr) :
    nodes item.segments = Node.reads item.exprs := by
  unfold segments
  split
  next key is => simp [exprs, is]
  next is => simp [exprs, is]

@[simp] lemma ConstantKind.nodes_segment (kind : ConstantKind) : nodes [kind.segment] = [] := by
  cases kind <;> rfl

/-- The nodes of an expression's written form are the expressions directly inside it. -/
theorem Expr.nodes_segments (inner : Position) (e : Expr) :
    nodes (e.segments inner) = Node.reads e.children := by
  cases e with
  | comprehension _ kind =>
    cases kind <;> simp [segments, children, clauseSegments, Segment.nodes_flatMap]
  | tuple _ _ _ parenthesized => cases parenthesized <;> simp [segments, children]
  | call => simp [segments, children, List.flatMap_map]
  | lambda _ params body =>
    simpa [segments, children, List.flatMap_map, Parameters.exprs, -Node.reads_append]
      using (Node.reads_append params.exprs [body]).symm
  | dict => simp [segments, children, List.flatMap_map]
  | _ => simp [segments, children]

@[simp] lemma Alias.nodes_segments (a : Alias) : nodes a.segments = [] := by
  rcases a with ⟨name, asname, span⟩
  cases asname <;> rfl

@[simp] lemma WithItem.nodes_segments (item : WithItem) :
    nodes item.segments = Node.reads (item.context :: item.target.toList) := by
  simp [segments]

@[simp] lemma Handler.nodes_segments (h : Handler Stmt) :
    nodes h.segments = Node.reads h.type.toList ++ Node.stmts h.body := by
  have name : nodes (h.name.toList.flatMap fun ident => [Segment.word .kAs, .name ident]) = [] := by
    cases h.name <;> rfl
  simp [segments, name]

namespace Stmt

@[simp] lemma nodes_decoratorSegments (decorators : List Expr) :
    nodes (decoratorSegments decorators) = Node.reads decorators := by
  simp [decoratorSegments, Segment.nodes_flatMap]

@[simp] lemma nodes_asyncSegments (isAsync : Bool) : nodes (asyncSegments isAsync) = [] := by
  cases isAsync <;> rfl

@[simp] lemma nodes_baseSegments (bases : List (Arg Expr)) :
    nodes (baseSegments bases) = Node.reads (bases.map (·.value)) := by
  cases bases with
  | nil => rfl
  | cons base bases => simp [baseSegments, List.flatMap_map]

/-- The nodes of a statement's written form: its expressions and the statements in it. -/
theorem nodes_segments (s : Stmt) : (nodes s.segments).filterMap Node.expr? = s.exprs
    ∧ (nodes s.segments).filterMap Node.stmt? = s.children := by
  have aliases (as : List Alias) : nodes (Segment.list (as.map (·.segments))) = [] := by
    simp [List.flatMap_map]
  have names (is : List Ident) :
      nodes (Segment.list (is.map fun i => [Segment.name i])) = [] := by
    simp [List.flatMap_map, List.flatMap_eq_nil_iff]
  cases s with
  | functionDef d =>
    simp [segments, exprs, children, List.flatMap_map, Parameters.exprs, -Node.reads_append]
  | classDef d => simp [segments, exprs, children]
  | assign => simp [segments, exprs, children, Segment.nodes_flatMap]
  | withBlock =>
    simp [segments, exprs, children, List.flatMap_map, List.filterMap_flatMap,
      List.filterMap_cons, -List.filterMap_eq_nil_iff]
  | tryBlock =>
    simp [segments, exprs, children, Segment.nodes_flatMap, List.filterMap_flatMap]
  | importFrom _ module _ _ isStar =>
    cases module <;> cases isStar <;> simp [segments, exprs, children, aliases]
  | importModules => simp [segments, exprs, children, aliases]
  | global | nonlocal => simp [segments, exprs, children, names]
  | _ =>
    simp [segments, exprs, children, List.filterMap_cons, -List.filterMap_eq_nil_iff]

end Stmt

/-! ## Numbers -/

/-- The numbers of an expression and of everything inside it. -/
def Expr.numbers (e : Expr) : List ScopeKey := e.descendants.map fun d => .expr d.serial

lemma Expr.numbers_eq (e : Expr) :
    e.numbers = .expr e.serial :: e.children.flatMap numbers := by
  rw [numbers, descendants_eq, List.map_cons, List.map_flatMap]
  rfl

/-- The numbers of a statement and of everything inside it. -/
def Stmt.numbers (s : Stmt) : List ScopeKey :=
  s.descendants.flatMap fun d => .stmt d.serial :: (Module.exprsOfStmt d).map fun e => .expr e.serial

lemma Stmt.numbers_eq (s : Stmt) : s.numbers
    = .stmt s.serial :: s.exprs.flatMap Expr.numbers ++ s.children.flatMap numbers := by
  rw [numbers, descendants_eq, List.flatMap_cons, List.flatMap_assoc, Module.exprsOfStmt,
    List.map_flatMap]
  rfl

/-- Every expression inside another one has a smaller number than what it is directly inside of. -/
def Expr.Descending (e : Expr) : Prop :=
  e.Everywhere fun d => ∀ c ∈ d.children, c.serial < d.serial

/-- The same of statements, and of the expressions in them among themselves. -/
def Stmt.Descending (s : Stmt) : Prop :=
  s.Everywhere fun d => (∀ c ∈ d.children, c.serial < d.serial) ∧ ∀ e ∈ d.exprs, e.Descending

namespace Node

/-- The numbers of a node and of everything inside it. -/
def numbers : Node → List ScopeKey
  | read e | target e => e.numbers
  | stmt s => s.numbers

/-- What is inside a node has smaller numbers. -/
def Descending : Node → Prop
  | read e | target e => e.Descending
  | stmt s => s.Descending

lemma numbers_of_expr? {n : Node} {e : Expr} (h : n.expr? = some e) : n.numbers = e.numbers := by
  cases n with
  | read | target =>
    obtain rfl := Option.some.inj h
    rfl
  | stmt => nomatch h

lemma descending_of_expr? {n : Node} {e : Expr} (h : n.expr? = some e) :
    n.Descending ↔ e.Descending := by
  cases n with
  | read | target =>
    obtain rfl := Option.some.inj h
    rfl
  | stmt => nomatch h

lemma flatMap_numbers_reads (es : List Expr) :
    (reads es).flatMap numbers = es.flatMap Expr.numbers := by
  rw [reads, List.flatMap_map]
  rfl

end Node

namespace Expr

@[simp] lemma serial_retarget (ctx : Context) (e : Expr) : (e.retarget ctx).serial = e.serial := by
  cases e <;> (unfold retarget; rfl)

@[simp] lemma serial_withSpan (span : Span) (e : Expr) : (e.withSpan span).serial = e.serial := by
  cases e <;> rfl

@[simp] lemma children_withSpan (span : Span) (e : Expr) :
    (e.withSpan span).children = e.children := children_withMark _ e

@[simp] lemma numbers_withSpan (span : Span) (e : Expr) :
    (e.withSpan span).numbers = e.numbers := by
  rw [numbers_eq, numbers_eq, serial_withSpan, children_withSpan]

lemma Descending.withSpan {e : Expr} (h : e.Descending) (span : Span) :
    (e.withSpan span).Descending := by
  refine .node ?_ ?_
  · rw [children_withSpan, serial_withSpan]
    exact h.here
  · rw [children_withSpan]
    exact fun c hc => h.child hc

/-- What is inside a target is what was inside the expression, maybe as targets. -/
lemma children_retarget (ctx : Context) (e : Expr) : (e.retarget ctx).children = e.children
    ∨ (e.retarget ctx).children = e.children.map fun c => c.retarget ctx := by
  cases e with
  | starred | tuple | list => exact .inr (by rw [retarget]; rfl)
  | _ => exact .inl (by unfold retarget; rfl)

/-- Targets have the numbers of the expressions that they were. -/
@[simp] theorem numbers_retarget (ctx : Context) (e : Expr) :
    (e.retarget ctx).numbers = e.numbers := by
  rw [numbers_eq, numbers_eq, serial_retarget]
  rcases children_retarget ctx e with same | mapped
  · rw [same]
  · rw [mapped, List.flatMap_map]
    congr 1
    refine List.flatMap_congr fun c hc => ?_
    have := sizeOf_lt_of_mem_children hc
    exact numbers_retarget ctx c
termination_by sizeOf e

theorem Descending.retarget {ctx : Context} {e : Expr} (h : e.Descending) :
    (e.retarget ctx).Descending := by
  induction h with
  | @node e here inside ih =>
    refine .node ?_ ?_
    · rcases children_retarget ctx e with same | mapped
      · rw [same, serial_retarget]
        exact here
      · rw [mapped, serial_retarget]
        intro c hc
        obtain ⟨d, hd, rfl⟩ := List.mem_map.1 hc
        rw [serial_retarget]
        exact here d hd
    · rcases children_retarget ctx e with same | mapped
      · rw [same]
        exact inside
      · rw [mapped]
        intro c hc
        obtain ⟨d, hd, rfl⟩ := List.mem_map.1 hc
        exact ih d hd

end Expr

/-- The numbers of an expression come from its written form. -/
lemma Expr.numbers_segments (inner : Position) (e : Expr) :
    e.numbers = .expr e.serial :: (nodes (e.segments inner)).flatMap Node.numbers := by
  rw [nodes_segments, Node.flatMap_numbers_reads, numbers_eq]

/-- The numbers of a statement come from its written form, in another order. -/
lemma Stmt.numbers_segments (s : Stmt) :
    s.numbers.Perm (.stmt s.serial :: (nodes s.segments).flatMap Node.numbers) := by
  obtain ⟨exprs, children⟩ := s.nodes_segments
  rw [numbers_eq, List.cons_append, ← exprs, ← children]
  refine List.Perm.cons _ (Node.flatMap_perm (fun c _ e is => ?_) fun d _ => .refl d.numbers)
  rw [Node.numbers_of_expr? is]

/-! ## Numbers given out between two points -/

/-- Nodes that were completed between two points and are used, and expressions that were and are
not. -/
structure Numbered (a b : Point) (ns : List Node) (dropped : List Expr) : Prop where
  nodup : (ns.flatMap Node.numbers ++ dropped.map fun e => ScopeKey.expr e.serial).Nodup
  between : ∀ k ∈ ns.flatMap Node.numbers ++ dropped.map fun e => ScopeKey.expr e.serial,
    Point.Between a b k
  descending : ∀ n ∈ ns, n.Descending

namespace Numbered

variable {a b c : Point} {ns ms : List Node} {ds es : List Expr}

lemma nil : Numbered a b [] [] := ⟨.nil, nofun, nofun⟩

/-- The same numbers on other nodes. -/
lemma perm (h : Numbered a b ns ds)
    (same : (ms.flatMap Node.numbers ++ es.map fun e => ScopeKey.expr e.serial).Perm
      (ns.flatMap Node.numbers ++ ds.map fun e => ScopeKey.expr e.serial))
    (descending : ∀ n ∈ ms, n.Descending) : Numbered a b ms es :=
  ⟨same.nodup_iff.2 h.nodup, fun k hk => h.between k (same.mem_iff.1 hk), descending⟩

/-- Where in the text the numbers are given out does not matter. -/
lemma counts {a' b' : Point} (h : Numbered a b ns ds)
    (left : a'.exprs = a.exprs ∧ a'.stmts = a.stmts)
    (right : b'.exprs = b.exprs ∧ b'.stmts = b.stmts) : Numbered a' b' ns ds := by
  refine ⟨h.nodup, fun k hk => (h.between k hk).mono ⟨?_, ?_⟩ ⟨?_, ?_⟩, h.descending⟩
  · exact left.1.le
  · exact left.2.le
  · exact right.1.ge
  · exact right.2.ge

/-- Numbers that were given out later are others. -/
theorem append (h : Numbered a b ns ds) (h' : Numbered b c ms es)
    (left : a.exprs ≤ b.exprs ∧ a.stmts ≤ b.stmts) (right : b.exprs ≤ c.exprs ∧ b.stmts ≤ c.stmts) :
    Numbered a c (ns ++ ms) (es ++ ds) := by
  have all : ((ns ++ ms).flatMap Node.numbers
      ++ (es ++ ds).map fun e => ScopeKey.expr e.serial).Perm
      ((ns.flatMap Node.numbers ++ ds.map fun e => ScopeKey.expr e.serial)
        ++ (ms.flatMap Node.numbers ++ es.map fun e => ScopeKey.expr e.serial)) := by
    rw [List.flatMap_append, List.map_append]
    grind
  refine ⟨all.nodup_iff.2 (List.nodup_append.2 ⟨h.nodup, h'.nodup, ?_⟩), ?_,
    List.forall_mem_append.2 ⟨h.descending, h'.descending⟩⟩
  · exact fun k hk l hl => (h.between k hk).ne (.refl b) (h'.between l hl)
  · intro k hk
    rcases List.mem_append.1 (all.mem_iff.1 hk) with hk | hk
    · exact (h.between k hk).mono ⟨Nat.le_refl _, Nat.le_refl _⟩ right
    · exact (h'.between k hk).mono left ⟨Nat.le_refl _, Nat.le_refl _⟩

/-- A node whose number was given out after those of what is inside it. -/
theorem node {n : Node} (h : Numbered a b ns ds)
    (left : a.exprs ≤ b.exprs ∧ a.stmts ≤ b.stmts) (right : b.exprs ≤ c.exprs ∧ b.stmts ≤ c.stmts)
    (number : Point.Between b c n.key) (numbers : n.numbers.Perm (n.key :: ns.flatMap Node.numbers))
    (descending : n.Descending) : Numbered a c [n] ds := by
  have all : ([n].flatMap Node.numbers ++ ds.map fun e => ScopeKey.expr e.serial).Perm
      (n.key :: (ns.flatMap Node.numbers ++ ds.map fun e => ScopeKey.expr e.serial)) := by
    rw [List.flatMap_singleton]
    exact numbers.append_right _
  refine ⟨all.nodup_iff.2 (List.nodup_cons.2 ⟨?_, h.nodup⟩), ?_,
    List.forall_mem_singleton.2 descending⟩
  · exact fun hk => (h.between _ hk).ne (.refl b) number rfl
  · intro k hk
    rcases List.mem_cons.1 (all.mem_iff.1 hk) with rfl | hk
    · exact number.mono left ⟨Nat.le_refl _, Nat.le_refl _⟩
    · exact (h.between k hk).mono ⟨Nat.le_refl _, Nat.le_refl _⟩ right

end Numbered

end MethodLift.Syntax
