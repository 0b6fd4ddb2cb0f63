import MethodLift.Proofs.Syntax.Certainty

/-!
# Evaluation in the order of the text

Mostly, what stands first in the text is evaluated first.  The exceptions are listed
(`Expr.OutOfOrder`, `Stmt.OutOfOrder`): arguments that are passed by name, in front of others; targets
of an assignment, in front of the value; annotations, in front of defaults and values; the target of
a `for`.  So of two expressions in a statement, the one that ends first is never evaluated behind the
other one, unless their ways part at such an exception (`Crossed`, `Stmt.Runs.neverBehind`).

Courses that evaluate parts more than once, or not in their order, are left out by the ways: these
lead through certain parts or later comparators only.
-/

namespace MethodLift.Syntax

open Relation (ReflTransGen)

/-! ## Exceptions -/

/-- Two parts of an expression of which the first one is evaluated behind the second one, wherever it
stands. -/
def Expr.OutOfOrder : Expr → Expr → Expr → Prop
  | call _ _ args, later, sooner =>
    ∃ a ∈ args, ∃ b ∈ args, a.kind.isByName = true ∧ b.kind.isByName = false
      ∧ a.value = later ∧ b.value = sooner
  | _, _, _ => False

/-- Two expressions of a statement of which the first one is evaluated behind the second one, or can
be, wherever it stands. -/
def Stmt.OutOfOrder : Stmt → Expr → Expr → Prop
  | functionDef d, later, sooner => later ∈ d.params.annotations ∧ sooner ∈ d.params.defaults
  | classDef d, later, sooner =>
    ∃ a ∈ d.bases, ∃ b ∈ d.bases, a.kind.isByName = true ∧ b.kind.isByName = false
      ∧ a.value = later ∧ b.value = sooner
  | assign _ targets value, later, sooner => later ∈ targets ∧ sooner = value
  | annAssign _ target hint (some value), later, sooner =>
    (later = target ∨ later = hint) ∧ sooner = value
  -- the target is evaluated in every round
  | forLoop _ _ target _ _ _, later, _ => later = target
  | _, _, _ => False

/-- The ways to two expressions of a statement part where what the first one is in is evaluated behind
what the second one is in. -/
def Crossed (s : Stmt) (r r' : Expr) : Prop :=
  (∃ later ∈ s.exprs, ∃ sooner ∈ s.exprs, s.OutOfOrder later sooner
    ∧ r ∈ later.descendants ∧ r' ∈ sooner.descendants)
  ∨ ∃ e ∈ Module.exprsOfStmt s, ∃ later ∈ e.children, ∃ sooner ∈ e.children,
    e.OutOfOrder later sooner ∧ r ∈ later.descendants ∧ r' ∈ sooner.descendants

/-! ## Expressions -/

/-- One expression ends before another one begins. -/
def Expr.Before (a b : Expr) : Prop := a.span.stop ≤ b.span.start

/-- What is evaluated in one step ends before what is evaluated in another one begins. -/
def Action.Before : Action → Action → Prop
  | evaluate d, evaluate e => d.Before e
  | _, _ => True

lemma Action.before_act (a : Action) : a.Before .act := by cases a <;> trivial

lemma evaluations_before {es : List Expr} (h : es.Pairwise Expr.Before) :
    (evaluations es).Pairwise Action.Before := List.pairwise_map.2 h

lemma concat_act_before {actions : List Action} (h : actions.Pairwise Action.Before) :
    (actions ++ [Action.act]).Pairwise Action.Before := by
  refine List.pairwise_append.2 ⟨h, List.pairwise_singleton _ _, fun a _ b hb => ?_⟩
  obtain rfl := List.mem_singleton.1 hb
  exact a.before_act

namespace Module.Laid

variable {m : Module} (laid : m.Laid)
include laid

lemma children_before {e : Expr} (he : e ∈ m.reachableExprs) :
    e.children.Pairwise Expr.Before := (List.pairwise_map.1 (laid.expr_holds he).apart).imp id

lemma exprs_before {s : Stmt} (hs : s ∈ m.reachableStmts) : s.exprs.Pairwise Expr.Before :=
  (List.pairwise_map.1 (laid.stmt_holds hs).1.apart).imp id

omit laid in
lemma descendant_mem {d e : Expr} (he : e ∈ m.reachableExprs) (hd : d ∈ e.descendants) :
    d ∈ m.reachableExprs := by
  obtain ⟨s, hs, he⟩ := List.mem_flatMap.1 he
  obtain ⟨root, own, he⟩ := List.mem_flatMap.1 he
  exact List.mem_flatMap.2
    ⟨s, hs, List.mem_flatMap.2 ⟨root, own, Expr.mem_descendants_trans he hd⟩⟩

/-- What has the number of an expression of the tree has the expression. -/
lemma mem_of_has {e r : Expr} (he : e ∈ m.reachableExprs) (hr : r ∈ m.reachableExprs)
    (has : e.Has r.serial) : r ∈ e.descendants := by
  obtain ⟨d, hd, same⟩ := has
  exact List.inj_on_of_nodup_map laid.serials_nodup (descendant_mem he hd) hr same ▸ hd

lemma expr_nonempty {e : Expr} (he : e ∈ m.reachableExprs) : e.span.start < e.span.stop := by
  obtain ⟨n, hn, is⟩ := Module.exists_node_of_mem_reachableExprs he
  exact Node.span_of_expr? is ▸ (laid.node hn).here.nonempty

/-- What is in expressions that follow one another does so too. -/
lemma before_inside {c d e r : Expr} (he : e ∈ m.reachableExprs) (hd : d ∈ m.reachableExprs)
    (before : d.Before e) (hc : c ∈ d.descendants) (hr : r ∈ e.descendants) : c.Before r := by
  have inD := Span.contains_iff.1 (laid.expr_contains hd hc)
  have inE := Span.contains_iff.1 (laid.expr_contains he hr)
  unfold Expr.Before at *
  omega

/-- What is evaluated in one expression, and in one that follows it. -/
lemma action_before {d e : Expr} (hd : d ∈ m.reachableExprs) (he : e ∈ m.reachableExprs)
    (before : d.Before e) {a b : Action} (ha : ∀ c, a = .evaluate c → c ∈ d.descendants)
    (hb : ∀ c, b = .evaluate c → c ∈ e.descendants) : a.Before b := by
  cases a with
  | act => trivial
  | evaluate c =>
    cases b with
    | act => trivial
    | evaluate r => exact laid.before_inside he hd before (ha c rfl) (hb r rfl)

lemma flatMap_assigning_before {es : List Expr} (inTree : ∀ e ∈ es, e ∈ m.reachableExprs)
    (before : es.Pairwise Expr.Before) (each : ∀ e ∈ es, e.assigning.Pairwise Action.Before) :
    (es.flatMap Expr.assigning).Pairwise Action.Before := by
  refine List.pairwise_flatMap.2 ⟨each, before.imp_of_mem fun {d e} hd he before a ha b hb => ?_⟩
  exact laid.action_before (inTree d hd) (inTree e he) before
    (fun _ is => Expr.mem_of_assigning (is ▸ ha)) fun _ is => Expr.mem_of_assigning (is ▸ hb)

/-- What an assignment evaluates, it evaluates in the order of the text. -/
lemma assigning_before {e : Expr} (he : e ∈ m.reachableExprs) :
    e.assigning.Pairwise Action.Before := by
  induction e using Expr.branching.induction with
  | step e ih =>
    have parts : ∀ c ∈ e.children, c ∈ m.reachableExprs := fun c hc =>
      descendant_mem he (Expr.mem_descendants_of_child hc c.mem_descendants_self)
    have before := laid.children_before he
    rw [Expr.assigning_eq]
    split
    · exact laid.flatMap_assigning_before parts before fun c hc => ih c hc (parts c hc)
    · exact concat_act_before (evaluations_before before)

/-- Targets are assigned in the order of the text. -/
lemma targets_before {ts : List Expr} (inTree : ∀ t ∈ ts, t ∈ m.reachableExprs)
    (before : ts.Pairwise Expr.Before) : (ts.flatMap Expr.assigning).Pairwise Action.Before :=
  laid.flatMap_assigning_before inTree before fun t ht => laid.assigning_before (inTree t ht)

/-- What an expression contains, and an expression that follows it. -/
lemma children_before_and {d e : Expr} (hd : d ∈ m.reachableExprs) (he : e ∈ m.reachableExprs)
    (before : d.Before e) : (d.children ++ [e]).Pairwise Expr.Before := by
  refine List.pairwise_append.2 ⟨laid.children_before hd, List.pairwise_singleton _ _,
    fun c hc => List.forall_mem_singleton.2 ?_⟩
  exact laid.before_inside he hd before
    (Expr.mem_descendants_of_child hc c.mem_descendants_self) e.mem_descendants_self

end Module.Laid

/-- The values of arguments, in the order of evaluation. -/
lemma argumentsInOrder_before {args : List (Arg Expr)}
    (before : (args.map (·.value)).Pairwise Expr.Before) :
    (argumentsInOrder args).Pairwise fun a b => a.Before b
      ∨ ∃ c ∈ args, ∃ d ∈ args, c.kind.isByName = true ∧ d.kind.isByName = false
        ∧ c.value = b ∧ d.value = a := by
  have part (p : Arg Expr → Bool) : ((args.filter p).map (·.value)).Pairwise Expr.Before :=
    before.sublist (List.filter_sublist.map _)
  refine List.pairwise_append.2 ⟨(part _).imp .inl, (part _).imp .inl, fun a ha b hb => .inr ?_⟩
  obtain ⟨d, hd, rfl⟩ := List.mem_map.1 ha
  obtain ⟨c, hc, rfl⟩ := List.mem_map.1 hb
  obtain ⟨hd, byPosition⟩ := List.mem_filter.1 hd
  obtain ⟨hc, byName⟩ := List.mem_filter.1 hc
  exact ⟨c, hc, d, hd, byName, by simpa using byPosition, rfl, rfl⟩

/-- Certain parts of an expression and later comparators are evaluated in the order of the text, or
are an exception. -/
lemma Expr.Course.inOrder {e : Expr} {ran : List Expr} (course : e.Course ran)
    (before : e.children.Pairwise Expr.Before) (disjoint : e.children.Pairwise Expr.Disjoint) :
    ran.Pairwise fun a b => (e.Certain a ∨ e.ComparesLater a) → (e.Certain b ∨ e.ComparesLater b) →
      a.Before b ∨ e.OutOfOrder b a := by
  have turns (part : ran.Sublist e.children) : ran.Pairwise fun a b =>
      (e.Certain a ∨ e.ComparesLater a) → (e.Certain b ∨ e.ComparesLater b) →
      a.Before b ∨ e.OutOfOrder b a :=
    (before.sublist part).imp fun before _ _ => .inl before
  have apart {c : Expr} {P : Prop} (h : c.Disjoint c) : P := absurd c.has_self (h _ c.has_self)
  cases e with
  | boolean => exact turns course.1.sublist
  | compare mark left ops comparators =>
    obtain ⟨compared, front, -, rfl⟩ := course
    exact turns (front.sublist.cons_cons left)
  | lambda mark params body =>
    obtain rfl : ran = params.defaults := course
    exact turns (params.defaults_sublist.trans (List.sublist_append_left _ _))
  | named mark target value =>
    obtain rfl : ran = [value] := course
    exact List.pairwise_singleton _ _
  | call mark func args =>
    obtain rfl : ran = func :: argumentsInOrder args := course
    obtain ⟨behind, before⟩ := List.pairwise_cons.1 before
    refine List.pairwise_cons.2 ⟨fun a ha _ _ => .inl (behind a ?_),
      (argumentsInOrder_before before).imp fun order _ _ => order⟩
    exact (argumentsInOrder_perm args).subset ha
  | conditional mark test body orelse =>
    -- the other part is not certain
    obtain ⟨fromBody, fromTest⟩ := List.pairwise_cons.1 disjoint
    rcases course with rfl | rfl
    · refine List.pairwise_pair.2 fun _ certain => ?_
      obtain rfl : body = test := certain.resolve_right id
      exact apart (fromBody body List.mem_cons_self)
    · refine List.pairwise_pair.2 fun _ certain => ?_
      obtain rfl : orelse = test := certain.resolve_right id
      exact apart ((List.pairwise_cons.1 fromTest).1 orelse List.mem_cons_self)
  | comprehension mark kind element value generators =>
    cases generators with
    | nil =>
      obtain rfl : ran = _ := course
      exact turns (List.Sublist.refl _)
    | cons g gs =>
      -- no part of the rounds is certain
      obtain ⟨rounds, each, rfl⟩ := course
      have middle : ((element :: value.toList ++ [g.target]) ++ g.iter
          :: (g.conditions ++ gs.flatMap (·.exprs))).Pairwise Expr.Disjoint := by
        simpa [Expr.children, Generator.exprs] using disjoint
      have others := (List.pairwise_cons.1 (middle.perm List.perm_middle Expr.Disjoint.symm)).1
      have none {d : Expr} (hd : d ∈ rounds) {P : Prop}
          (certain : Expr.Certain (.comprehension mark kind element value (g :: gs)) d
            ∨ Expr.ComparesLater (.comprehension mark kind element value (g :: gs)) d) : P := by
        obtain ⟨g', first, rfl⟩ := certain.resolve_right id
        obtain rfl : g = g' := by simpa using first
        exact apart (others g.iter (by simpa using each g.iter hd))
      exact List.pairwise_cons.2 ⟨fun d hd _ certain => none hd certain,
        List.pairwise_of_forall_mem_list fun d hd _ _ certain => none hd certain⟩
  | _ =>
    obtain rfl : ran = _ := course
    exact turns (List.Sublist.refl _)

lemma Expr.child_of_certain_or_later {p c : Expr} (h : p.Certain c ∨ p.ComparesLater c) :
    c ∈ p.children := by
  rcases h with certain | later
  · exact certain.child
  · cases p with
    | compare => exact List.mem_cons_of_mem _ (List.mem_of_mem_tail later)
    | _ => nomatch later

/-- On a path through parts of expressions to an expression, what has that expression is the next one. -/
lemma Expr.step_of_path {R : Expr → Expr → Prop} {root r p b : Expr}
    (sub : ∀ p c, R p c → c ∈ p.children) (distinct : root.Distinct) (path : ReflTransGen R root r)
    (hp : p ∈ root.descendants) (hb : b ∈ p.children) (has : b.Has r.serial) : R p b := by
  induction path using ReflTransGen.head_induction_on with
  | refl =>
    rcases branching.mem_descendants.1 hp with rfl | ⟨c, hc, hp⟩
    · exact absurd has (distinct.own b hb)
    · exact absurd (Has.of_mem hp (.of_child hb has)) (distinct.own c hc)
  | @head e c step rest ih =>
    have child := sub e c step
    have inside : c.Has r.serial := ⟨r, mem_of_path sub rest, rfl⟩
    rcases branching.mem_descendants.1 hp with rfl | ⟨d, hd, hp⟩
    · obtain rfl := distinct.eq_of_has hb child has inside
      exact step
    · obtain rfl := distinct.eq_of_has hd child (Has.of_mem hp (.of_child hb has)) inside
      exact ih (distinct.child d hd) hp

/-! ## Statements -/

/-- The statements in one that tests once stand behind all else in it. -/
lemma Node.exists_header {s : Stmt} (once : s.TestsOnce) :
    ∃ header, ofStmt s = header ++ stmts s.children := by
  cases s with
  | tryBlock | whileLoop => exact once.elim
  | forLoop mark isAsync t iter body orelse =>
    refine ⟨[target t, read iter], ?_⟩
    rw [Stmt.children, stmts_append]
    rfl
  | delete | assign | augAssign | annAssign => exact ⟨_, (List.append_nil _).symm⟩
  | _ => exact ⟨_, rfl⟩

/-- The expressions of a statement that tests once end before the statements in it begin. -/
lemma Module.Laid.header_before {m : Module} (laid : m.Laid) {s c : Stmt} {e : Expr}
    (hs : s ∈ m.reachableStmts) (once : s.TestsOnce) (he : e ∈ s.exprs) (hc : c ∈ s.children) :
    e.span.stop ≤ c.span.start := by
  obtain ⟨header, parts⟩ := Node.exists_header once
  have exprs := Node.filterMap_expr?_ofStmt s
  rw [parts, List.filterMap_append, Node.filterMap_expr?_stmts, List.append_nil] at exprs
  obtain ⟨n, hn, is⟩ := List.mem_filterMap.1 (exprs ▸ he)
  have apart := (laid.node (Module.stmt_mem_nodes.2 hs)).here.apart
  rw [Node.parts, parts] at apart
  have before := (List.pairwise_append.1 apart).2.2 n hn (.stmt c) (List.mem_map_of_mem hc)
  exact Node.span_of_expr? is ▸ before.stop_le

namespace Stmt

/-- Two steps are about expressions of a statement that are evaluated in the wrong order. -/
def Turns (s : Stmt) (a b : Action) : Prop :=
  ∃ later ∈ s.exprs, ∃ sooner ∈ s.exprs, s.OutOfOrder later sooner
    ∧ (∀ n, a.Has n → sooner.Has n) ∧ ∀ n, b.Has n → later.Has n

/-- Steps in the order of the text, but for the exceptions of a statement. -/
def InTurn (s : Stmt) (steps : List Action) : Prop :=
  steps.Pairwise fun a b => a.Before b ∨ s.Turns a b

variable {s : Stmt} {steps : List Action} {m : Module}

lemma inTurn_of_before (h : steps.Pairwise Action.Before) : s.InTurn steps := h.imp .inl

/-- Expressions of a statement that are evaluated in the order of the text, or are an exception. -/
lemma inTurn_evaluations {es : List Expr} (part : es ⊆ s.exprs)
    (h : es.Pairwise fun d e => d.Before e ∨ s.OutOfOrder e d) :
    s.InTurn (evaluations es ++ [.act]) := by
  refine List.pairwise_append.2 ⟨List.pairwise_map.2 (h.imp_of_mem fun hd he => Or.imp id
    fun out => ⟨_, part he, _, part hd, out, fun _ => id, fun _ => id⟩),
    List.pairwise_singleton _ _, fun a _ b hb => ?_⟩
  obtain rfl := List.mem_singleton.1 hb
  exact .inl a.before_act

namespace Course

/-! ### Kinds of statements -/

/-- Of a function, decorators and defaults come first, then annotations. -/
lemma inTurn_functionDef {d : FunctionDef Stmt} (course : (Stmt.functionDef d).Course steps)
    (before : (exprs (.functionDef d)).Pairwise Expr.Before) :
    (Stmt.functionDef d).InTurn steps := by
  obtain ⟨annotations, which, rfl⟩ := course
  have defaults := d.params.defaults_sublist
  have headers : (d.decorators ++ d.params.defaults).Sublist (exprs (.functionDef d)) :=
    ((List.Sublist.refl _).append defaults).trans (List.sublist_append_left _ _)
  have signature : (d.params.annotations ++ d.returns.toList).Sublist (exprs (.functionDef d)) := by
    rw [exprs, List.append_assoc]
    exact (d.params.annotations_sublist.append (.refl _)).trans (List.sublist_append_right _ _)
  have annotated : annotations.Sublist (d.params.annotations ++ d.returns.toList) := by
    rcases which with rfl | rfl
    · exact List.nil_sublist _
    · exact List.Sublist.refl _
  refine inTurn_evaluations
    (List.append_subset.2 ⟨headers.subset, (annotated.trans signature).subset⟩)
    (List.pairwise_append.2 ⟨(before.sublist headers).imp .inl,
      (before.sublist (annotated.trans signature)).imp .inl, fun a ha b hb => ?_⟩)
  obtain ⟨front, -, toReturns⟩ := List.pairwise_append.1 before
  have toParams := (List.pairwise_append.1 front).2.2
  rcases List.mem_append.1 (annotated.subset hb) with hb | hb
  · rcases List.mem_append.1 ha with ha | ha
    · exact .inl (toParams a ha b (d.params.annotations_sublist.subset hb))
    · exact .inr ⟨hb, ha⟩
  · exact .inl (toReturns a (((List.Sublist.refl _).append defaults).subset ha) b hb)

lemma inTurn_classDef {d : ClassDef Stmt} (course : (Stmt.classDef d).Course steps)
    (before : (exprs (.classDef d)).Pairwise Expr.Before) : (Stmt.classDef d).InTurn steps := by
  obtain rfl : steps = _ := course
  obtain ⟨decorators, bases, toBases⟩ := List.pairwise_append.1 before
  have perm := Expr.argumentsInOrder_perm d.bases
  refine inTurn_evaluations (perm.append_left d.decorators).subset (List.pairwise_append.2
    ⟨decorators.imp .inl, argumentsInOrder_before bases, fun a ha b hb => ?_⟩)
  exact .inl (toBases a ha b (perm.subset hb))

section

variable (laid : m.Laid)
include laid

/-- An assignment evaluates its value first. -/
lemma inTurn_assign {mark : Mark} {ts : List Expr} {value : Expr}
    (course : (Stmt.assign mark ts value).Course steps)
    (before : (exprs (.assign mark ts value)).Pairwise Expr.Before)
    (inTree : ∀ e ∈ exprs (.assign mark ts value), e ∈ m.reachableExprs) :
    (Stmt.assign mark ts value).InTurn steps := by
  obtain rfl : steps = _ := course
  obtain ⟨apart, -⟩ := List.pairwise_append.1 before
  refine List.pairwise_cons.2 ⟨fun a ha => ?_,
    inTurn_of_before (laid.targets_before (fun t ht => inTree t (List.mem_append_left _ ht)) apart)⟩
  obtain ⟨t, ht, ha⟩ := List.mem_flatMap.1 ha
  exact .inr ⟨t, List.mem_append_left _ ht, value, List.mem_append_right _ (List.mem_singleton_self _),
    ⟨ht, rfl⟩, fun _ => id, fun _ => Expr.has_of_assigning ha⟩

lemma inTurn_augAssign {mark : Mark} {target value : Expr} {op : BinaryOp}
    (course : (Stmt.augAssign mark target op value).Course steps)
    (before : (exprs (.augAssign mark target op value)).Pairwise Expr.Before)
    (inTree : ∀ e ∈ exprs (.augAssign mark target op value), e ∈ m.reachableExprs) :
    (Stmt.augAssign mark target op value).InTurn steps := by
  obtain rfl : steps = _ := course
  obtain ⟨hTarget, others⟩ := List.forall_mem_cons.1 inTree
  have hValue := others value (List.mem_singleton_self _)
  have toValue := (List.pairwise_cons.1 before).1 value (List.mem_singleton_self _)
  exact inTurn_of_before (concat_act_before (evaluations_before (laid.children_before_and hTarget
    hValue toValue)))

/-- An annotation without a value. -/
lemma inTurn_annotation {mark : Mark} {target hint : Expr}
    (course : (Stmt.annAssign mark target hint none).Course steps)
    (before : (exprs (.annAssign mark target hint none)).Pairwise Expr.Before)
    (inTree : ∀ e ∈ exprs (.annAssign mark target hint none), e ∈ m.reachableExprs) :
    (Stmt.annAssign mark target hint none).InTurn steps := by
  obtain ⟨held, annotated, whichHeld, whichHint, rfl⟩ := course
  obtain ⟨hTarget, others⟩ := List.forall_mem_cons.1 inTree
  have hHint := others hint List.mem_cons_self
  have toHint := (List.pairwise_cons.1 before).1 hint List.mem_cons_self
  have held : held.Sublist target.children := by
    rcases whichHeld with rfl | rfl
    · exact List.nil_sublist _
    · exact List.Sublist.refl _
  have annotated : annotated.Sublist [hint] := by
    rcases whichHint with rfl | rfl
    · exact List.nil_sublist _
    · exact List.Sublist.refl _
  exact inTurn_of_before (evaluations_before
    ((laid.children_before_and hTarget hHint toHint).sublist (held.append annotated)))

/-- An annotated assignment evaluates its value first, and its annotation last. -/
lemma inTurn_annAssign {mark : Mark} {target hint value : Expr}
    (course : (Stmt.annAssign mark target hint (some value)).Course steps)
    (before : (exprs (.annAssign mark target hint (some value))).Pairwise Expr.Before)
    (inTree : ∀ e ∈ exprs (.annAssign mark target hint (some value)), e ∈ m.reachableExprs) :
    (Stmt.annAssign mark target hint (some value)).InTurn steps := by
  obtain ⟨annotated, which, rfl⟩ := course
  obtain ⟨hTarget, others⟩ := List.forall_mem_cons.1 inTree
  have hHint := others hint List.mem_cons_self
  have toHint := (List.pairwise_cons.1 before).1 hint List.mem_cons_self
  have turned {e : Expr} (he : e = target ∨ e = hint) {a : Action} (ha : ∀ n, a.Has n → e.Has n) :
      Turns (.annAssign mark target hint (some value)) (.evaluate value) a := by
    refine ⟨e, ?_, value, by simp [exprs], ⟨he, rfl⟩, fun _ => id, ha⟩
    rcases he with rfl | rfl
    · exact List.mem_cons_self
    · exact List.mem_cons_of_mem _ List.mem_cons_self
  have annotated : (evaluations annotated).Sublist [.evaluate hint] := by
    rcases which with rfl | rfl
    · exact List.nil_sublist _
    · exact List.Sublist.refl _
  refine List.pairwise_cons.2 ⟨fun a ha => .inr ?_, inTurn_of_before (List.pairwise_append.2
    ⟨laid.assigning_before hTarget, (List.pairwise_singleton _ _).sublist annotated,
      fun a ha b hb => ?_⟩)⟩
  · rcases List.mem_append.1 ha with ha | ha
    · exact turned (.inl rfl) fun _ => Expr.has_of_assigning ha
    · obtain rfl := List.mem_singleton.1 (annotated.subset ha)
      exact turned (.inr rfl) fun _ => id
  · obtain rfl := List.mem_singleton.1 (annotated.subset hb)
    refine laid.action_before hTarget hHint toHint (fun c is => ?_) fun c is => ?_
    · exact Expr.mem_of_assigning (is ▸ ha)
    · exact Action.evaluate.inj is ▸ hint.mem_descendants_self

omit laid in
/-- The target of a loop is assigned in every round. -/
lemma inTurn_forLoop {mark : Mark} {isAsync : Bool} {target iter : Expr} {body orelse : List Stmt}
    (course : (Stmt.forLoop mark isAsync target iter body orelse).Course steps) :
    (Stmt.forLoop mark isAsync target iter body orelse).InTurn steps := by
  obtain ⟨rounds, ending, which, rfl⟩ := course
  have each : ∀ b ∈ (List.replicate rounds (target.assigning ++ [.act])).flatten ++ ending,
      b = .act ∨ b ∈ target.assigning := by
    refine List.forall_mem_append.2 ⟨fun b hb => ?_, ?_⟩
    · obtain ⟨round, hr, hb⟩ := List.mem_flatten.1 hb
      obtain rfl := (List.mem_replicate.1 hr).2
      exact (List.mem_append.1 hb).symm.imp_left List.mem_singleton.1
    · rcases which with rfl | rfl
      · exact List.forall_mem_nil _
      · exact List.forall_mem_singleton.2 (.inl rfl)
  have turned {sooner : Expr} (hs : sooner ∈ [target, iter]) {a : Action}
      (ha : ∀ n, a.Has n → sooner.Has n) {b : Action} (hb : b = .act ∨ b ∈ target.assigning) :
      a.Before b ∨ Turns (.forLoop mark isAsync target iter body orelse) a b := by
    rcases hb with rfl | hb
    · exact .inl a.before_act
    · exact .inr ⟨target, List.mem_cons_self, sooner, hs, rfl, ha, fun _ => Expr.has_of_assigning hb⟩
  refine List.pairwise_cons.2 ⟨fun b hb => ?_,
    List.pairwise_of_forall_mem_list fun a ha b hb => ?_⟩
  · exact turned (List.mem_cons_of_mem _ (List.mem_singleton_self _)) (fun _ => id) (each b hb)
  · refine turned List.mem_cons_self (fun n has => ?_) (each b hb)
    rcases each a ha with rfl | ha
    · cases has
    · exact Expr.has_of_assigning ha has

/-- An entry of a `with` evaluates its context and assigns it. -/
lemma item_before {item : WithItem}
    (before : (item.context :: item.target.toList).Pairwise Expr.Before)
    (inTree : ∀ e ∈ item.context :: item.target.toList, e ∈ m.reachableExprs) :
    item.actions.Pairwise Action.Before := by
  obtain ⟨toTarget, apart⟩ := List.pairwise_cons.1 before
  obtain ⟨hContext, inParts⟩ := List.forall_mem_cons.1 inTree
  refine List.pairwise_cons.2 ⟨List.forall_mem_cons.2 ⟨Action.before_act _, fun a ha => ?_⟩,
    List.pairwise_cons.2 ⟨fun _ _ => trivial, laid.targets_before inParts apart⟩⟩
  obtain ⟨t, ht, ha⟩ := List.mem_flatMap.1 ha
  refine laid.action_before hContext (inParts t ht) (toTarget t ht) (fun c is => ?_) fun c is => ?_
  · exact Action.evaluate.inj is ▸ item.context.mem_descendants_self
  · exact Expr.mem_of_assigning (is ▸ ha)

lemma inTurn_withBlock {mark : Mark} {isAsync : Bool} {items : List WithItem} {body : List Stmt}
    (course : (Stmt.withBlock mark isAsync items body).Course steps)
    (before : (exprs (.withBlock mark isAsync items body)).Pairwise Expr.Before)
    (inTree : ∀ e ∈ exprs (.withBlock mark isAsync items body), e ∈ m.reachableExprs) :
    (Stmt.withBlock mark isAsync items body).InTurn steps := by
  obtain rfl : steps = items.flatMap WithItem.actions ++ [Action.act] := course
  obtain ⟨inItem, across⟩ := List.pairwise_flatMap.1 before
  have part {item : WithItem} (hi : item ∈ items) :
      ∀ e ∈ item.context :: item.target.toList, e ∈ m.reachableExprs :=
    fun e he => inTree e (List.mem_flatMap.2 ⟨item, hi, he⟩)
  refine inTurn_of_before (concat_act_before (List.pairwise_flatMap.2
    ⟨fun item hi => item_before laid (inItem item hi) (part hi), ?_⟩))
  refine across.imp_of_mem fun {item item'} hi hi' apart a ha b hb => ?_
  cases a with
  | act => trivial
  | evaluate c =>
    cases b with
    | act => trivial
    | evaluate c' =>
      obtain ⟨e, he, hc⟩ := WithItem.mem_of_actions ha
      obtain ⟨e', he', hc'⟩ := WithItem.mem_of_actions hb
      exact laid.before_inside (part hi' e' he') (part hi e he) (apart e he e' he') hc hc'

end

/-- What a statement evaluates, it evaluates in the order of the text, but for the exceptions. -/
theorem inOrder (course : s.Course steps) (laid : m.Laid) (hs : s ∈ m.reachableStmts)
    (once : s.TestsOnce) : steps.Pairwise fun a b => a.Before b ∨ s.Turns a b := by
  have before := laid.exprs_before hs
  have inTree : ∀ e ∈ s.exprs, e ∈ m.reachableExprs := fun e he =>
    List.mem_flatMap.2 ⟨s, hs, List.mem_flatMap.2 ⟨e, he, e.mem_descendants_self⟩⟩
  cases s with
  | functionDef => exact inTurn_functionDef course before
  | classDef => exact inTurn_classDef course before
  | delete =>
    obtain rfl : steps = _ := course
    exact inTurn_of_before (laid.targets_before inTree before)
  | assign => exact inTurn_assign laid course before inTree
  | augAssign => exact inTurn_augAssign laid course before inTree
  | annAssign mark target hint value =>
    cases value with
    | none => exact inTurn_annotation laid course before inTree
    | some => exact inTurn_annAssign laid course before inTree
  | forLoop => exact inTurn_forLoop course
  | whileLoop | tryBlock => cases once
  | ifElse =>
    refine inTurn_of_before ?_
    rcases course with rfl | rfl
    · exact List.pairwise_singleton _ _
    · exact concat_act_before (List.pairwise_singleton _ _)
  | withBlock => exact inTurn_withBlock laid course before inTree
  | assert | expr =>
    obtain rfl : steps = _ := course
    exact List.pairwise_singleton _ _
  | _ =>
    obtain rfl : steps = _ := course
    exact inTurn_of_before (concat_act_before (evaluations_before before))

end Course

/-- Of two expressions that are reached through certain parts and later comparators, the one that ends
first is never evaluated behind the other one, unless the ways to them part at an exception. -/
theorem Runs.neverBehind {root root' r r' : Expr} {trace : List Occurrence} (run : s.Runs trace)
    (laid : m.Laid) (hs : s ∈ m.reachableStmts) (once : s.TestsOnce) (own : root ∈ s.exprs)
    (own' : root' ∈ s.exprs)
    (path : ReflTransGen (fun p d => p.Certain d ∨ p.ComparesLater d) root r)
    (path' : ReflTransGen (fun p d => p.Certain d ∨ p.ComparesLater d) root' r')
    (stops : r.span.stop < r'.span.stop) (straight : ¬ Crossed s r r') :
    NeverBehind (.evaluated r.serial) (.evaluated r'.serial) trace := by
  obtain ⟨steps, course, runs⟩ := run
  have inTree {e : Expr} (he : e ∈ Module.exprsOfStmt s) : e ∈ m.reachableExprs :=
    List.mem_flatMap.2 ⟨s, hs, he⟩
  have reached {e q : Expr} (own : e ∈ s.exprs)
      (path : ReflTransGen (fun p d => p.Certain d ∨ p.ComparesLater d) e q) :
      q ∈ Module.exprsOfStmt s :=
    List.mem_flatMap.2 ⟨e, own, Expr.mem_of_path (fun _ _ => Expr.child_of_certain_or_later) path⟩
  have hr := inTree (reached own path)
  have hr' := inTree (reached own' path')
  -- what has both of them does not have the second one first
  have apart {d e : Expr} (hd : d ∈ m.reachableExprs) (he : e ∈ m.reachableExprs)
      (has : d.Has r'.serial) (has' : e.Has r.serial) : ¬ d.Before e := fun before => by
    have := laid.before_inside he hd before (laid.mem_of_has hd hr' has) (laid.mem_of_has he hr has')
    have := laid.expr_nonempty hr
    unfold Expr.Before at *
    omega
  -- the ways go through whatever has the expressions
  have through {e q p b : Expr} (own : e ∈ s.exprs)
      (path : ReflTransGen (fun p d => p.Certain d ∨ p.ComparesLater d) e q)
      (hp : p ∈ Module.exprsOfStmt s) (hb : b ∈ p.children) (has : b.Has q.serial) :
      p.Certain b ∨ p.ComparesLater b := by
    obtain ⟨e', own', hp⟩ := List.mem_flatMap.1 hp
    have sub := fun p c => Expr.child_of_certain_or_later (p := p) (c := c)
    obtain rfl : e = e' := by
      by_contra other
      exact (laid.stmt_distinct hs).cases.2.forall own own' other _
        ⟨q, Expr.mem_of_path sub path, rfl⟩ (.of_mem hp (.of_child hb has))
    exact Expr.step_of_path sub ((laid.stmt_distinct hs).cases.1 e own) path hp hb has
  refine runs.neverBehind ?_ fun e he p hp => ⟨fun same c hc has => ?_, fun ran turns => ?_⟩
  · refine (course.inOrder laid hs once).imp_of_mem fun {a b} ha hb order has has' => ?_
    rcases order with before | ⟨later, hl, sooner, hso, out, inSooner, inLater⟩
    · cases a with
      | act => nomatch has
      | evaluate d =>
        cases b with
        | act => nomatch has'
        | evaluate e =>
          exact apart (inTree (course.subset ha)) (inTree (course.subset hb)) has has' before
    · have own {e : Expr} (he : e ∈ s.exprs) := inTree
        (List.mem_flatMap.2 ⟨e, he, e.mem_descendants_self⟩)
      exact straight (.inl ⟨later, hl, sooner, hso, out, laid.mem_of_has (own hl) hr (inLater _ has'),
        laid.mem_of_has (own hso) hr' (inSooner _ has)⟩)
  · have hp : p ∈ m.reachableExprs := Module.Laid.descendant_mem (inTree (course.subset he)) hp
    obtain rfl : p = r := List.inj_on_of_nodup_map laid.serials_nodup hp hr same
    have inside := laid.expr_contains hr (laid.mem_of_has hr hr' (.of_child hc has))
    have := Span.contains_iff.1 inside
    omega
  · have hp : p ∈ Module.exprsOfStmt s := by
      obtain ⟨root, own, he⟩ := List.mem_flatMap.1 (course.subset he)
      exact List.mem_flatMap.2 ⟨root, own, Expr.mem_descendants_trans he hp⟩
    have part {c : Expr} (hc : c ∈ p.children) : c ∈ m.reachableExprs :=
      Module.Laid.descendant_mem (inTree hp) (Expr.mem_descendants_of_child hc c.mem_descendants_self)
    have order := turns.inOrder (laid.children_before (inTree hp)) (laid.distinct (inTree hp)).disjoint
    refine order.imp_of_mem fun {a b} ha hb order has has' => ?_
    have ha := turns.subset ha
    have hb := turns.subset hb
    rcases order (through own' path' hp ha has) (through own path hp hb has') with before | out
    · exact apart (part ha) (part hb) has has' before
    · exact straight (.inr ⟨p, hp, b, hb, a, ha, out, laid.mem_of_has (part hb) hr has',
        laid.mem_of_has (part ha) hr' has⟩)

end Stmt

end MethodLift.Syntax
