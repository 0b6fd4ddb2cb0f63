import MethodLift.Proofs.Syntax.Evaluation

/-!
# What statements are certain to evaluate

Some expressions of a statement are evaluated once in each run that comes to the end of the statement
(`Stmt.certain`), and some of these before the statement has done anything else (`Stmt.early`).  What
is inside such an expression, and certain there, gets its value once in each run
(`Stmt.Runs.count_eq_one`), and not behind an act (`Stmt.Runs.neverBehind_acted`).

Targets are the one place where an expression of a statement is not evaluated itself, but what
stands in it is.  A path from a target to something that is evaluated leads through targets first and
then through one of the expressions that the assignment evaluates (`exists_assigning`).
-/

namespace MethodLift.Syntax

open Relation (ReflTransGen)

/-! ## Parts of statements -/

/-- The expressions of a statement that are evaluated once, or assigned to once, in each run to its
end. -/
def Stmt.certain : Stmt → List Expr
  | functionDef d => d.decorators ++ d.params.defaults
  | annAssign _ target _ (some value) => [value, target]
  | annAssign _ _ _ none => []
  | forLoop _ _ _ iter _ _ => [iter]
  | whileLoop .. | tryBlock .. => []
  | assert _ test _ => [test]
  | s => s.exprs

/-- Those of them that come before anything else that the statement does. -/
def Stmt.early : Stmt → List Expr
  | delete _ targets => targets.head?.toList
  | assign _ targets value => value :: targets.head?.toList
  | withBlock _ _ items _ => (items.head?.map (·.context)).toList
  | s => s.certain

/-- A target in a target, and not the first one: others are bound before it. -/
def Expr.AssignsLater (parent child : Expr) : Prop :=
  parent.holdsTargets = true ∧ parent.ctx ≠ .load ∧ parent.children.head? ≠ some child

/-- A comparator of a chained comparison behind the first one: it is only evaluated if the
comparisons in front of it hold. -/
def Expr.ComparesLater (parent child : Expr) : Prop :=
  match parent with
  | .compare _ _ _ comparators => child ∈ comparators.tail
  | _ => False

/-- A statement whose own expressions can be evaluated on a line before it: it does not test again
and again, or only if the tests before it fail, and it is no `try`. -/
def Stmt.TestsOnce : Stmt → Prop
  | whileLoop .. | ifElse _ true .. | tryBlock .. => False
  | _ => True

/-- No number belongs to two expressions of a statement. -/
def Stmt.Distinct (s : Stmt) : Prop := ((Module.exprsOfStmt s).map (·.serial)).Nodup

/-- Actions that have nothing in common. -/
def Action.Disjoint (a b : Action) : Prop := ∀ n, a.Has n → ¬ b.Has n

lemma Stmt.Distinct.cases {s : Stmt} (h : s.Distinct) :
    (∀ e ∈ s.exprs, e.Distinct) ∧ s.exprs.Pairwise Expr.Disjoint := by
  rw [Distinct, Module.exprsOfStmt, List.map_flatMap, List.nodup_flatMap] at h
  refine ⟨h.1, h.2.imp fun disjoint n has has' => ?_⟩
  exact disjoint (Expr.has_iff_mem.1 has) (Expr.has_iff_mem.1 has')

/-- Numbers in the tree of a text are distinct. -/
lemma Module.Laid.stmt_distinct {m : Module} {s : Stmt} (laid : m.Laid) (hs : s ∈ m.reachableStmts) :
    s.Distinct := by
  refine laid.serials_nodup.sublist (List.Sublist.map _ ?_)
  exact List.sublist_flatten_of_mem (List.mem_map_of_mem hs)

/-- So they are in each of its expressions. -/
lemma Module.Laid.distinct {m : Module} {e : Expr} (laid : m.Laid) (he : e ∈ m.reachableExprs) :
    e.Distinct := by
  obtain ⟨n, hn, is⟩ := exists_node_of_mem_reachableExprs he
  have keys := (laid.node hn).keys_nodup
  have exprs : ((n.all.filterMap Node.expr?).map fun e => Scope.ScopeKey.expr e.serial).Nodup := by
    refine List.Nodup.sublist ?_ keys
    rw [Node.keys, List.map_filterMap, ← List.filterMap_eq_map]
    refine filterMap_sublist fun x _ key isKey => ?_
    obtain ⟨d, isExpr, rfl⟩ := Option.map_eq_some_iff.1 isKey
    exact congrArg some (Node.key_of_expr? isExpr)
  rw [Node.filterMap_expr?_all is] at exprs
  refine List.Nodup.of_map Scope.ScopeKey.expr ?_
  rw [List.map_map]
  exact exprs

namespace Expr

variable {c d e : Expr} {n : ℕ}

lemma mem_descendants_self (e : Expr) : e ∈ e.descendants := branching.mem_descendants.2 (.inl rfl)

lemma mem_descendants_of_child (hc : c ∈ e.children) (hd : d ∈ c.descendants) :
    d ∈ e.descendants := branching.mem_descendants.2 (.inr ⟨c, hc, hd⟩)

/-- What is inside something inside an expression is inside the expression. -/
lemma mem_descendants_trans (hc : c ∈ e.descendants) (hd : d ∈ c.descendants) :
    d ∈ e.descendants := by
  induction e using branching.induction with
  | step e ih =>
    rcases branching.mem_descendants.1 hc with rfl | ⟨b, hb, hc⟩
    · exact hd
    · exact mem_descendants_of_child hb (ih b hb hc)

lemma Has.of_mem (hd : d ∈ e.descendants) (h : d.Has n) : e.Has n := by
  obtain ⟨x, hx, rfl⟩ := h
  exact ⟨x, mem_descendants_trans hd hx, rfl⟩

end Expr

lemma mem_evaluations {es : List Expr} {e : Expr} : .evaluate e ∈ evaluations es ↔ e ∈ es := by
  rw [evaluations, List.mem_map]
  constructor
  · rintro ⟨d, hd, same⟩
    exact Action.evaluate.inj same ▸ hd
  · exact fun he => ⟨e, he, rfl⟩

lemma act_notMem_evaluations (es : List Expr) : .act ∉ evaluations es := by
  rw [evaluations, List.mem_map]
  rintro ⟨e, -, same⟩
  cases same

/-- One of some expressions takes its turn, and no act comes before it. -/
lemma exists_evaluations {es : List Expr} {e : Expr} (he : e ∈ es) (rest : List Action) :
    ∃ front back, evaluations es ++ rest = front ++ .evaluate e :: back ∧ .act ∉ front := by
  obtain ⟨front, back, rfl⟩ := List.append_of_mem he
  refine ⟨evaluations front, evaluations back ++ rest, ?_, act_notMem_evaluations front⟩
  simp [evaluations]

/-! ## Targets -/

namespace Expr

variable {e r : Expr} {a : Action}

/-- What an assignment evaluates is inside the target. -/
lemma mem_of_assigning {c : Expr} (h : .evaluate c ∈ e.assigning) : c ∈ e.descendants := by
  induction e using branching.induction with
  | step e ih =>
    rw [assigning_eq] at h
    split at h
    · obtain ⟨d, hd, h⟩ := List.mem_flatMap.1 h
      exact mem_descendants_of_child hd (ih d hd h)
    · have mem : c ∈ e.children := by
        simpa [mem_evaluations] using h
      exact mem_descendants_of_child mem c.mem_descendants_self

lemma has_of_assigning {n : ℕ} (ha : a ∈ e.assigning) (has : a.Has n) : e.Has n := by
  cases a with
  | evaluate c => exact Has.of_mem (mem_of_assigning ha) has
  | act => nomatch has

/-- Assigning to targets that have nothing in common. -/
lemma flatMap_disjoint {es : List Expr} {f : Expr → List Action} (apart : es.Pairwise Disjoint)
    (inside : ∀ e ∈ es, ∀ a ∈ f e, ∀ n, a.Has n → e.Has n)
    (each : ∀ e ∈ es, (f e).Pairwise Action.Disjoint) : (es.flatMap f).Pairwise Action.Disjoint := by
  refine List.pairwise_flatMap.2 ⟨each, apart.imp_of_mem ?_⟩
  intro d e hd he disjoint a ha b hb n has has'
  exact disjoint n (inside d hd a ha n has) (inside e he b hb n has')

lemma evaluations_disjoint {es : List Expr} (apart : es.Pairwise Disjoint) :
    (evaluations es).Pairwise Action.Disjoint := List.pairwise_map.2 apart

lemma concat_act_disjoint {actions : List Action} (h : actions.Pairwise Action.Disjoint) :
    (actions ++ [Action.act]).Pairwise Action.Disjoint := by
  refine List.pairwise_append.2 ⟨h, List.pairwise_singleton _ _, fun a _ b hb n _ has => ?_⟩
  obtain rfl := List.mem_singleton.1 hb
  exact has

lemma assigning_disjoint (distinct : e.Distinct) : e.assigning.Pairwise Action.Disjoint := by
  induction e using branching.induction with
  | step e ih =>
    rw [assigning_eq]
    split
    · exact flatMap_disjoint distinct.disjoint (fun _ _ _ ha _ => has_of_assigning ha)
        fun c hc => ih c hc (distinct.child c hc)
    · exact concat_act_disjoint (evaluations_disjoint distinct.disjoint)

end Expr

section Paths

variable {m : Module} {R : Expr → Expr → Prop} {e r : Expr} (sub : ∀ p c, R p c → p.Certain c)
  (laid : m.Laid) (read : .read r ∈ m.nodes)

namespace Expr

/-- A target with targets inside it is not there to be read, and its parts are targets. -/
lemma target_parts (laid : m.Laid) (target : .target e ∈ m.nodes) (holds : e.holdsTargets = true) :
    e.ctx ≠ .load ∧ ∀ c ∈ e.children, .target c ∈ m.nodes := by
  have role := (laid.node target).here.role
  refine ⟨role, fun c hc => Module.mem_nodes_of_mem_parts target ?_⟩
  cases e with
  | starred | tuple | list => exact List.mem_map_of_mem hc
  | _ => nomatch holds

include sub laid read

/-- On a path of certain parts from a target to something that is evaluated, one of the expressions
that the assignment evaluates is passed.  Nothing is bound before it if the path takes the first one
of targets in a target. -/
theorem exists_assigning (target : .target e ∈ m.nodes) (path : ReflTransGen R e r) :
    ∃ front c back, e.assigning = front ++ .evaluate c :: back ∧ ReflTransGen R c r
      ∧ ((∀ p c, R p c → ¬ p.AssignsLater c) → .act ∉ front) := by
  induction path using ReflTransGen.head_induction_on with
  | refl => nomatch laid.eq_of_key target read rfl
  | @head e c step rest ih =>
    have child := (sub e c step).child
    rw [assigning_eq]
    split
    next holds =>
      obtain ⟨role, parts⟩ := target_parts laid target holds
      obtain ⟨front, d, back, same, path, noAct⟩ := ih (parts c child)
      by_cases first : e.children.head? = some c
      · obtain ⟨others, list⟩ := List.head?_eq_some_iff.1 first
        refine ⟨front, d, back ++ others.flatMap assigning, ?_, path, noAct⟩
        rw [list, List.flatMap_cons, same, List.append_assoc, List.cons_append]
      · obtain ⟨ahead, behind, list⟩ := List.append_of_mem child
        refine ⟨ahead.flatMap assigning ++ front, d, back ++ behind.flatMap assigning, ?_, path,
          fun none => absurd ⟨holds, role, first⟩ (none e c step)⟩
        simp [list, same]
    · obtain ⟨front, back, same, noAct⟩ := exists_evaluations child [.act]
      exact ⟨front, c, back, same, rest, fun _ => noAct⟩

/-- The same of one of several targets, which are assigned one after the other. -/
lemma exists_targets {ts : List Expr} (targets : ∀ t ∈ ts, .target t ∈ m.nodes) (he : e ∈ ts)
    (path : ReflTransGen R e r) :
    ∃ front c back, ts.flatMap assigning = front ++ .evaluate c :: back ∧ ReflTransGen R c r
      ∧ ((∀ p c, R p c → ¬ p.AssignsLater c) → ts.head? = some e → .act ∉ front) := by
  obtain ⟨front, c, back, same, path, noAct⟩ :=
    exists_assigning sub laid read (targets e he) path
  by_cases first : ts.head? = some e
  · obtain ⟨others, rfl⟩ := List.head?_eq_some_iff.1 first
    refine ⟨front, c, back ++ others.flatMap assigning, ?_, path, fun none _ => noAct none⟩
    simp [same]
  · obtain ⟨ahead, behind, rfl⟩ := List.append_of_mem he
    refine ⟨ahead.flatMap assigning ++ front, c, back ++ behind.flatMap assigning, ?_, path,
      fun _ isFirst => absurd isFirst first⟩
    simp [same]

/-- The same of the entries of a `with`: nothing is done before the context of the first one. -/
lemma exists_items {items : List WithItem}
    (targets : ∀ t, ∀ item ∈ items, t ∈ item.target.toList → .target t ∈ m.nodes)
    (he : e ∈ items.flatMap fun item => item.context :: item.target.toList)
    (path : ReflTransGen R e r) :
    ∃ front c back, items.flatMap WithItem.actions = front ++ .evaluate c :: back
      ∧ ReflTransGen R c r ∧ (items.head?.map (·.context) = some e → .act ∉ front) := by
  by_cases first : items.head?.map (·.context) = some e
  · obtain ⟨item, isFirst, rfl⟩ := Option.map_eq_some_iff.1 first
    obtain ⟨others, rfl⟩ := List.head?_eq_some_iff.1 isFirst
    exact ⟨[], item.context, _, rfl, path, fun _ => List.not_mem_nil⟩
  obtain ⟨item, hi, mem⟩ := List.mem_flatMap.1 he
  obtain ⟨ahead, behind, rfl⟩ := List.append_of_mem hi
  rcases List.mem_cons.1 mem with rfl | isTarget
  · refine ⟨ahead.flatMap WithItem.actions, item.context,
      .act :: item.target.toList.flatMap assigning ++ behind.flatMap WithItem.actions, ?_, path,
      fun isFirst => absurd isFirst first⟩
    simp [WithItem.actions]
  · have sole : item.target.toList = [e] := by
      rw [Option.mem_toList.1 isTarget]
      rfl
    obtain ⟨front, c, back, same, path, -⟩ :=
      exists_assigning sub laid read (targets e item hi isTarget) path
    refine ⟨ahead.flatMap WithItem.actions ++ .evaluate item.context :: .act :: front, c,
      back ++ behind.flatMap WithItem.actions, ?_, path, fun isFirst => absurd isFirst first⟩
    simp [WithItem.actions, sole, same]

end Expr

end Paths

/-! ## Statements -/

/-- Defaults and annotations are what a parameter list has. -/
lemma Parameters.defaults_append_annotations {ε : Type} (ps : Parameters ε) :
    (ps.defaults ++ ps.annotations).Perm ps.exprs := by
  rw [defaults, annotations, List.filterMap_eq_flatMap_toList, List.filterMap_eq_flatMap_toList]
  exact List.perm_append_comm.trans (List.flatMap_append_perm ..)

/-- What an entry of a `with` evaluates is inside its context or its target. -/
lemma WithItem.mem_of_actions {item : WithItem} {c : Expr} (h : .evaluate c ∈ item.actions) :
    ∃ e ∈ item.context :: item.target.toList, c ∈ e.descendants := by
  rcases List.mem_cons.1 h with same | h
  · obtain rfl := Action.evaluate.inj same
    exact ⟨_, List.mem_cons_self, Expr.mem_descendants_self _⟩
  · obtain ⟨t, ht, h⟩ := List.mem_flatMap.1 ((List.mem_cons.1 h).resolve_left nofun)
    exact ⟨t, List.mem_cons_of_mem _ ht, Expr.mem_of_assigning h⟩

lemma WithItem.has_of_actions {item : WithItem} {a : Action} {n : ℕ} (ha : a ∈ item.actions)
    (has : a.Has n) : ∃ e ∈ item.context :: item.target.toList, e.Has n := by
  cases a with
  | act => nomatch has
  | evaluate c =>
    obtain ⟨e, he, hc⟩ := mem_of_actions ha
    exact ⟨e, he, .of_mem hc has⟩

namespace Stmt

variable {s : Stmt} {root : Expr} {steps : List Action} {n : ℕ}

/-! ### What a statement evaluates -/

section Evaluates

variable {d e t : Expr}

lemma mem_exprsOfStmt (hd : d ∈ s.exprs) (he : e ∈ d.descendants) : e ∈ Module.exprsOfStmt s :=
  List.mem_flatMap.2 ⟨d, hd, he⟩

lemma expr_mem (he : e ∈ s.exprs) : e ∈ Module.exprsOfStmt s :=
  mem_exprsOfStmt he e.mem_descendants_self

lemma child_mem (hd : d ∈ s.exprs) (he : e ∈ d.children) : e ∈ Module.exprsOfStmt s :=
  mem_exprsOfStmt hd (Expr.mem_descendants_of_child he e.mem_descendants_self)

lemma assigning_mem (ht : t ∈ s.exprs) (he : .evaluate e ∈ t.assigning) :
    e ∈ Module.exprsOfStmt s := mem_exprsOfStmt ht (Expr.mem_of_assigning he)

lemma targets_mem {ts : List Expr} (part : ts ⊆ s.exprs)
    (he : .evaluate e ∈ ts.flatMap Expr.assigning) : e ∈ Module.exprsOfStmt s := by
  obtain ⟨t, ht, he⟩ := List.mem_flatMap.1 he
  exact assigning_mem (part ht) he

/-- Expressions that take their turns before the statement does what it is there for. -/
lemma turn_mem {es : List Expr} (part : es ⊆ s.exprs)
    (he : .evaluate e ∈ evaluations es ++ [.act]) : e ∈ Module.exprsOfStmt s := by
  refine expr_mem (part ?_)
  simpa [mem_evaluations] using he

namespace Course

lemma mem_functionDef {d : FunctionDef Stmt} (course : (Stmt.functionDef d).Course steps)
    (he : .evaluate e ∈ steps) : e ∈ Module.exprsOfStmt (.functionDef d) := by
  obtain ⟨annotations, which, rfl⟩ := course
  refine turn_mem (List.append_subset.2 ⟨?_, ?_⟩) he
  · refine (((List.Sublist.refl d.decorators).append d.params.defaults_sublist).trans ?_).subset
    exact List.sublist_append_left _ _
  · rcases which with rfl | rfl
    · exact List.nil_subset _
    · rw [exprs, List.append_assoc]
      exact ((d.params.annotations_sublist.append (.refl _)).trans
        (List.sublist_append_right _ _)).subset

lemma mem_augAssign {mark : Mark} {value : Expr} {op : BinaryOp}
    (course : (Stmt.augAssign mark t op value).Course steps) (he : .evaluate e ∈ steps) :
    e ∈ Module.exprsOfStmt (.augAssign mark t op value) := by
  obtain rfl : steps = _ := course
  have mem : e ∈ t.children ∨ e = value := by
    simpa [mem_evaluations] using he
  rcases mem with mem | rfl
  · exact child_mem List.mem_cons_self mem
  · exact expr_mem (List.mem_cons_of_mem _ (List.mem_singleton_self _))

/-- An annotation without a value. -/
lemma mem_annotation {mark : Mark} {hint : Expr}
    (course : (Stmt.annAssign mark t hint none).Course steps) (he : .evaluate e ∈ steps) :
    e ∈ Module.exprsOfStmt (.annAssign mark t hint none) := by
  obtain ⟨held, annotated, which, which', rfl⟩ := course
  rcases List.mem_append.1 (mem_evaluations.1 he) with mem | mem
  · rcases which with rfl | rfl
    · cases mem
    · exact child_mem List.mem_cons_self mem
  · rcases which' with rfl | rfl
    · cases mem
    · exact expr_mem (List.mem_cons_of_mem _ mem)

lemma mem_annAssign {mark : Mark} {hint value : Expr}
    (course : (Stmt.annAssign mark t hint (some value)).Course steps) (he : .evaluate e ∈ steps) :
    e ∈ Module.exprsOfStmt (.annAssign mark t hint (some value)) := by
  obtain ⟨annotated, which, rfl⟩ := course
  rcases List.mem_cons.1 he with same | he
  · obtain rfl := Action.evaluate.inj same
    exact expr_mem (by simp [exprs])
  rcases List.mem_append.1 he with he | he
  · exact assigning_mem List.mem_cons_self he
  · rcases which with rfl | rfl
    · cases he
    · obtain rfl := List.mem_singleton.1 (mem_evaluations.1 he)
      exact expr_mem (by simp [exprs])

lemma mem_forLoop {mark : Mark} {isAsync : Bool} {iter : Expr} {body orelse : List Stmt}
    (course : (Stmt.forLoop mark isAsync t iter body orelse).Course steps)
    (he : .evaluate e ∈ steps) :
    e ∈ Module.exprsOfStmt (.forLoop mark isAsync t iter body orelse) := by
  obtain ⟨rounds, ending, which, rfl⟩ := course
  rcases List.mem_cons.1 he with same | he
  · obtain rfl := Action.evaluate.inj same
    exact expr_mem (by simp [exprs])
  rcases List.mem_append.1 he with he | he
  · obtain ⟨round, hr, he⟩ := List.mem_flatten.1 he
    obtain rfl := (List.mem_replicate.1 hr).2
    exact assigning_mem List.mem_cons_self (by simpa using he)
  · rcases which with rfl | rfl <;> simp at he

lemma mem_whileLoop {mark : Mark} {test : Expr} {body orelse : List Stmt}
    (course : (Stmt.whileLoop mark test body orelse).Course steps) (he : .evaluate e ∈ steps) :
    e ∈ Module.exprsOfStmt (.whileLoop mark test body orelse) := by
  obtain ⟨rounds, ending, which, rfl⟩ := course
  have tested : ¬ rounds = 0 ∧ e = test ∨ e = test := by
    rcases which with rfl | rfl <;> simpa using he
  exact expr_mem (List.mem_singleton.2 (tested.elim And.right id))

lemma mem_tryBlock {mark : Mark} {body : List Stmt} {handlers : List (Handler Stmt)}
    {orelse finalbody : List Stmt}
    (course : (Stmt.tryBlock mark body handlers orelse finalbody).Course steps)
    (he : .evaluate e ∈ steps) :
    e ∈ Module.exprsOfStmt (.tryBlock mark body handlers orelse finalbody) := by
  obtain ⟨types, front, rfl⟩ := course
  have mem : e ∈ types := by simpa [mem_evaluations] using he
  exact expr_mem (front.subset mem)

lemma mem_withBlock {mark : Mark} {isAsync : Bool} {items : List WithItem} {body : List Stmt}
    (course : (Stmt.withBlock mark isAsync items body).Course steps) (he : .evaluate e ∈ steps) :
    e ∈ Module.exprsOfStmt (.withBlock mark isAsync items body) := by
  obtain rfl : steps = items.flatMap WithItem.actions ++ [Action.act] := course
  obtain ⟨item, hi, he⟩ : ∃ item ∈ items, .evaluate e ∈ item.actions := by simpa using he
  obtain ⟨d, hd, inside⟩ := WithItem.mem_of_actions he
  exact mem_exprsOfStmt (List.mem_flatMap.2 ⟨item, hi, hd⟩) inside

/-- What a statement evaluates are expressions of it, and expressions in its targets. -/
lemma subset (course : s.Course steps) (he : .evaluate e ∈ steps) :
    e ∈ Module.exprsOfStmt s := by
  cases s with
  | functionDef => exact mem_functionDef course he
  | classDef d =>
    obtain rfl : steps = _ := course
    exact turn_mem ((Expr.argumentsInOrder_perm d.bases).append_left _).subset he
  | delete =>
    obtain rfl : steps = _ := course
    exact targets_mem (List.Subset.refl _) he
  | assign mark ts value =>
    obtain rfl : steps = _ := course
    rcases List.mem_cons.1 he with same | he
    · obtain rfl := Action.evaluate.inj same
      exact expr_mem (List.mem_append_right _ (List.mem_singleton_self _))
    · exact targets_mem (List.subset_append_left ts [value]) he
  | augAssign => exact mem_augAssign course he
  | annAssign mark target hint value =>
    cases value with
    | none => exact mem_annotation course he
    | some => exact mem_annAssign course he
  | forLoop => exact mem_forLoop course he
  | whileLoop => exact mem_whileLoop course he
  | tryBlock => exact mem_tryBlock course he
  | ifElse mark isElif test body orelse =>
    have tested : e = test := by
      rcases course with rfl | rfl <;> simpa using he
    exact expr_mem (List.mem_singleton.2 tested)
  | withBlock => exact mem_withBlock course he
  | assert | expr =>
    obtain rfl : steps = _ := course
    obtain rfl := Action.evaluate.inj (List.mem_singleton.1 he)
    exact expr_mem List.mem_cons_self
  | _ =>
    obtain rfl : steps = _ := course
    exact turn_mem (List.Subset.refl _) he

end Course

end Evaluates

/-! ### Nothing is evaluated twice -/

namespace Distinct

variable (distinct : s.Distinct)
include distinct

lemma exprs_disjoint {es : List Expr} (part : es.Subperm s.exprs) :
    es.Pairwise Expr.Disjoint := by
  obtain ⟨es', perm, sub⟩ := part
  exact (distinct.cases.2.sublist sub).perm perm Expr.Disjoint.symm

/-- Expressions that take their turns before the statement does what it is there for. -/
lemma turns_disjoint {es : List Expr} (part : es.Subperm s.exprs) :
    (evaluations es ++ [Action.act]).Pairwise Action.Disjoint :=
  Expr.concat_act_disjoint (Expr.evaluations_disjoint (distinct.exprs_disjoint part))

lemma targets_disjoint {ts : List Expr} (part : ts.Subperm s.exprs) :
    (ts.flatMap Expr.assigning).Pairwise Action.Disjoint :=
  Expr.flatMap_disjoint (distinct.exprs_disjoint part) (fun _ _ _ ha _ => Expr.has_of_assigning ha)
    fun t ht => Expr.assigning_disjoint (distinct.cases.1 t (part.subset ht))

end Distinct

namespace Course

lemma disjoint_functionDef {d : FunctionDef Stmt} (course : (Stmt.functionDef d).Course steps)
    (distinct : (Stmt.functionDef d).Distinct) : steps.Pairwise Action.Disjoint := by
  obtain ⟨annotations, which, rfl⟩ := course
  refine distinct.turns_disjoint ?_
  have whole : (d.decorators ++ d.params.defaults
      ++ (d.params.annotations ++ d.returns.toList)).Perm (exprs (.functionDef d)) := by
    have params := d.params.defaults_append_annotations
    simpa [exprs] using (params.append_right d.returns.toList).append_left d.decorators
  rcases which with rfl | rfl
  · rw [List.append_nil]
    exact (List.sublist_append_left _ _).subperm.trans whole.subperm
  · exact whole.subperm

lemma disjoint_assign {mark : Mark} {ts : List Expr} {value : Expr}
    (course : (Stmt.assign mark ts value).Course steps)
    (distinct : (Stmt.assign mark ts value).Distinct) : steps.Pairwise Action.Disjoint := by
  obtain rfl : steps = _ := course
  refine List.pairwise_cons.2 ⟨fun a ha n has has' => ?_,
    distinct.targets_disjoint (List.sublist_append_left ts [value]).subperm⟩
  obtain ⟨t, ht, ha⟩ := List.mem_flatMap.1 ha
  exact (List.pairwise_append.1 distinct.cases.2).2.2 t ht value (List.mem_singleton_self _) n
    (Expr.has_of_assigning ha has') has

lemma disjoint_augAssign {mark : Mark} {target value : Expr} {op : BinaryOp}
    (course : (Stmt.augAssign mark target op value).Course steps)
    (distinct : (Stmt.augAssign mark target op value).Distinct) :
    steps.Pairwise Action.Disjoint := by
  obtain rfl : steps = _ := course
  obtain ⟨each, apart⟩ := distinct.cases
  refine Expr.concat_act_disjoint (Expr.evaluations_disjoint ?_)
  refine List.pairwise_append.2 ⟨(each target List.mem_cons_self).disjoint,
    List.pairwise_singleton _ _, fun c hc d hd n has => ?_⟩
  exact (List.pairwise_cons.1 apart).1 d hd n (Expr.Has.of_child hc has)

lemma disjoint_annAssign {mark : Mark} {target hint value : Expr}
    (course : (Stmt.annAssign mark target hint (some value)).Course steps)
    (distinct : (Stmt.annAssign mark target hint (some value)).Distinct) :
    steps.Pairwise Action.Disjoint := by
  obtain ⟨annotated, which, rfl⟩ := course
  obtain ⟨each, apart⟩ := distinct.cases
  obtain ⟨fromTarget, fromAnnotation⟩ := List.pairwise_cons.1 apart
  have last : (evaluations annotated).Sublist [.evaluate hint] := by
    rcases which with rfl | rfl
    · exact List.nil_sublist _
    · exact List.Sublist.refl _
  have behind : ∀ a ∈ evaluations annotated, ∀ n, a.Has n → hint.Has n := fun a ha n has => by
    obtain rfl := List.mem_singleton.1 (last.subset ha)
    exact has
  refine List.pairwise_cons.2 ⟨List.forall_mem_append.2 ⟨?_, ?_⟩, List.pairwise_append.2
    ⟨Expr.assigning_disjoint (each target List.mem_cons_self),
      (List.pairwise_singleton _ _).sublist last, ?_⟩⟩
  · intro a ha n has has'
    exact fromTarget value (by simp) n (Expr.has_of_assigning ha has') has
  · intro a ha n has has'
    exact (List.pairwise_cons.1 fromAnnotation).1 value (by simp) n (behind a ha n has') has
  · intro a ha b hb n has has'
    exact fromTarget hint (by simp) n (Expr.has_of_assigning ha has) (behind b hb n has')

lemma disjoint_withBlock {mark : Mark} {isAsync : Bool} {items : List WithItem} {body : List Stmt}
    (course : (Stmt.withBlock mark isAsync items body).Course steps)
    (distinct : (Stmt.withBlock mark isAsync items body).Distinct) :
    steps.Pairwise Action.Disjoint := by
  obtain rfl : steps = items.flatMap WithItem.actions ++ [Action.act] := course
  obtain ⟨each, apart⟩ := distinct.cases
  obtain ⟨inItem, across⟩ := List.pairwise_flatMap.1 apart
  refine Expr.concat_act_disjoint (List.pairwise_flatMap.2 ⟨fun item hi => ?_, ?_⟩)
  · have mem {e : Expr} (he : e ∈ item.context :: item.target.toList) :
        e ∈ exprs (.withBlock mark isAsync items body) := List.mem_flatMap.2 ⟨item, hi, he⟩
    obtain ⟨fromContext, ts⟩ := List.pairwise_cons.1 (inItem item hi)
    refine List.pairwise_cons.2 ⟨List.forall_mem_cons.2 ⟨fun _ _ => id, ?_⟩,
      List.pairwise_cons.2 ⟨fun _ _ _ has => has.elim, ?_⟩⟩
    · intro a ha n has has'
      obtain ⟨t, ht, ha⟩ := List.mem_flatMap.1 ha
      exact fromContext t ht n has (Expr.has_of_assigning ha has')
    · exact Expr.flatMap_disjoint ts (fun _ _ _ ha _ => Expr.has_of_assigning ha)
        fun t ht => Expr.assigning_disjoint (each t (mem (List.mem_cons_of_mem _ ht)))
  · refine across.imp fun disjoint a ha b hb n has has' => ?_
    obtain ⟨e, he, has⟩ := WithItem.has_of_actions ha has
    obtain ⟨e', he', has'⟩ := WithItem.has_of_actions hb has'
    exact disjoint e he e' he' n has has'

/-- A loop assigns its target in every round, but it evaluates what it runs over in the first step
only. -/
lemma alone_forLoop {mark : Mark} {isAsync : Bool} {target iter : Expr} {body orelse : List Stmt}
    (course : (Stmt.forLoop mark isAsync target iter body orelse).Course steps)
    (distinct : (Stmt.forLoop mark isAsync target iter body orelse).Distinct) (has : iter.Has n) :
    steps.Pairwise fun a b => a.Has n → ¬ b.Has n := by
  obtain ⟨rounds, ending, which, rfl⟩ := course
  have other : ¬ target.Has n := fun has' =>
    (List.pairwise_cons.1 distinct.cases.2).1 iter (List.mem_singleton_self _) n has' has
  have none : ∀ a ∈ (List.replicate rounds (target.assigning ++ [.act])).flatten ++ ending,
      ¬ a.Has n := by
    refine List.forall_mem_append.2 ⟨fun a ha has' => ?_, ?_⟩
    · obtain ⟨round, hr, ha⟩ := List.mem_flatten.1 ha
      obtain rfl := (List.mem_replicate.1 hr).2
      rcases List.mem_append.1 ha with ha | ha
      · exact other (Expr.has_of_assigning ha has')
      · obtain rfl := List.mem_singleton.1 ha
        exact has'
    · rcases which with rfl | rfl
      · exact List.forall_mem_nil _
      · exact List.forall_mem_singleton.2 id
  exact List.pairwise_cons.2 ⟨fun a ha _ => none a ha,
    List.pairwise_of_forall_mem_list fun a ha _ _ has' => absurd has' (none a ha)⟩

/-- A number of a certain expression is in no two steps. -/
lemma alone (course : s.Course steps) (distinct : s.Distinct) (certain : root ∈ s.certain)
    (has : root.Has n) : steps.Pairwise fun a b => a.Has n → ¬ b.Has n := by
  have all (h : steps.Pairwise Action.Disjoint) :
      steps.Pairwise fun a b => a.Has n → ¬ b.Has n := h.imp fun disjoint => disjoint n
  cases s with
  | functionDef => exact all (disjoint_functionDef course distinct)
  | classDef d =>
    obtain rfl : steps = _ := course
    exact all (distinct.turns_disjoint
      ((Expr.argumentsInOrder_perm d.bases).append_left _).subperm)
  | delete =>
    obtain rfl : steps = _ := course
    exact all (distinct.targets_disjoint (List.Subperm.refl _))
  | assign => exact all (disjoint_assign course distinct)
  | augAssign => exact all (disjoint_augAssign course distinct)
  | annAssign mark target hint value =>
    cases value with
    | none => cases certain
    | some => exact all (disjoint_annAssign course distinct)
  | forLoop =>
    obtain rfl := List.mem_singleton.1 certain
    exact alone_forLoop course distinct has
  | whileLoop => cases certain
  | tryBlock => cases certain
  | ifElse =>
    refine all ?_
    rcases course with rfl | rfl
    · exact List.pairwise_singleton _ _
    · exact Expr.concat_act_disjoint (List.pairwise_singleton _ _)
  | withBlock => exact all (disjoint_withBlock course distinct)
  | assert | expr =>
    obtain rfl : steps = _ := course
    exact List.pairwise_singleton _ _
  | _ =>
    obtain rfl : steps = _ := course
    exact all (distinct.turns_disjoint (List.Subperm.refl _))

end Course

/-! ### What is certain takes its turn -/

/-- One of the steps of a statement evaluates what leads to an expression, and nothing is done before
if `root` is an early one and the path takes the first one of targets in a target. -/
def Passes (s : Stmt) (R : Expr → Expr → Prop) (root r : Expr) (steps : List Action) : Prop :=
  ∃ front e back, steps = front ++ .evaluate e :: back ∧ ReflTransGen R e r
    ∧ ((∀ p c, R p c → ¬ p.AssignsLater c) → root ∈ s.early → .act ∉ front)

section Passes

variable {m : Module} {R : Expr → Expr → Prop} {r : Expr} (path : ReflTransGen R root r)
include path

/-- The expression is the first step. -/
lemma passes_head (rest : List Action) : s.Passes R root r (.evaluate root :: rest) :=
  ⟨[], root, rest, rfl, path, fun _ _ => List.not_mem_nil⟩

/-- The expression is one of those that take their turns first. -/
lemma passes_turn {es : List Expr} (mem : root ∈ es) (rest : List Action) :
    s.Passes R root r (evaluations es ++ rest) := by
  obtain ⟨front, back, parts, noAct⟩ := exists_evaluations mem rest
  exact ⟨front, root, back, parts, path, fun _ _ => noAct⟩

variable (sub : ∀ p c, R p c → p.Certain c) (laid : m.Laid) (read : .read r ∈ m.nodes)
include sub laid read

namespace Course

lemma passes_delete {mark : Mark} {ts : List Expr} (course : (Stmt.delete mark ts).Course steps)
    (part : ∀ c ∈ Node.ofStmt (.delete mark ts), c ∈ m.nodes) (target : root ∈ ts) :
    (Stmt.delete mark ts).Passes R root r steps := by
  obtain rfl : steps = _ := course
  obtain ⟨front, c, back, same, path, noAct⟩ := Expr.exists_targets sub laid read
    (fun t ht => part _ (List.mem_map_of_mem ht)) target path
  refine ⟨front, c, back, same, path, fun none early => noAct none ?_⟩
  exact Option.mem_toList.1 early

lemma passes_assign {mark : Mark} {ts : List Expr} {value : Expr}
    (course : (Stmt.assign mark ts value).Course steps)
    (part : ∀ c ∈ Node.ofStmt (.assign mark ts value), c ∈ m.nodes) (certain : root ∈ ts ++ [value]) :
    (Stmt.assign mark ts value).Passes R root r steps := by
  obtain rfl : steps = _ := course
  by_cases isValue : root = value
  · subst isValue
    exact passes_head path _
  have target : root ∈ ts := (List.mem_append.1 certain).resolve_right fun mem =>
    isValue (List.mem_singleton.1 mem)
  obtain ⟨front, c, back, same, path, noAct⟩ := Expr.exists_targets sub laid read
    (fun t ht => part _ (List.mem_append_left _ (List.mem_map_of_mem ht))) target path
  refine ⟨.evaluate value :: front, c, back, by rw [same]; rfl, path, fun none early => ?_⟩
  have first := Option.mem_toList.1 ((List.mem_cons.1 early).resolve_left isValue)
  simpa using noAct none first

/-- The target of an assignment with an operator is not evaluated itself, but its parts are. -/
lemma passes_augAssign {mark : Mark} {target value : Expr} {op : BinaryOp}
    (course : (Stmt.augAssign mark target op value).Course steps)
    (part : ∀ c ∈ Node.ofStmt (.augAssign mark target op value), c ∈ m.nodes)
    (certain : root ∈ [target, value]) :
    (Stmt.augAssign mark target op value).Passes R root r steps := by
  obtain rfl : steps = _ := course
  rcases List.mem_cons.1 certain with rfl | isValue
  · rcases path.cases_head with rfl | ⟨c, step, rest⟩
    · cases laid.eq_of_key (part _ List.mem_cons_self) read rfl
    · have mem : c ∈ root.children ++ [value] := List.mem_append_left _ (sub root c step).child
      obtain ⟨front, back, parts, noAct⟩ := exists_evaluations mem [.act]
      exact ⟨front, c, back, parts, rest, fun _ _ => noAct⟩
  · exact passes_turn path (List.mem_append_right _ isValue) _

lemma passes_annAssign {mark : Mark} {target hint value : Expr}
    (course : (Stmt.annAssign mark target hint (some value)).Course steps)
    (part : ∀ c ∈ Node.ofStmt (.annAssign mark target hint (some value)), c ∈ m.nodes)
    (certain : root ∈ [value, target]) :
    (Stmt.annAssign mark target hint (some value)).Passes R root r steps := by
  obtain ⟨annotated, -, rfl⟩ := course
  rcases List.mem_cons.1 certain with rfl | isTarget
  · exact passes_head path _
  obtain rfl := List.mem_singleton.1 isTarget
  obtain ⟨front, c, back, same, path, noAct⟩ := Expr.exists_assigning sub laid read
    (part _ List.mem_cons_self) path
  refine ⟨.evaluate value :: front, c, back ++ evaluations annotated, ?_, path,
    fun none _ => by simpa using noAct none⟩
  rw [same]
  simp

lemma passes_withBlock {mark : Mark} {isAsync : Bool} {items : List WithItem} {body : List Stmt}
    (course : (Stmt.withBlock mark isAsync items body).Course steps)
    (part : ∀ c ∈ Node.ofStmt (.withBlock mark isAsync items body), c ∈ m.nodes)
    (certain : root ∈ exprs (.withBlock mark isAsync items body)) :
    (Stmt.withBlock mark isAsync items body).Passes R root r steps := by
  obtain rfl : steps = items.flatMap WithItem.actions ++ [Action.act] := course
  obtain ⟨front, e, back, same, path, noAct⟩ := Expr.exists_items sub laid read
    (fun t item hi ht => part _ (List.mem_append_left _
      (List.mem_flatMap.2 ⟨item, hi, List.mem_cons_of_mem _ (List.mem_map_of_mem ht)⟩)))
    certain path
  refine ⟨front, e, back ++ [.act], by rw [same]; simp, path, fun _ early => noAct ?_⟩
  exact Option.mem_toList.1 early

/-- What is certain in a certain expression takes a turn in each run, and nothing is done before if
the expression is an early one and the path to it takes the first one of targets in a target. -/
theorem exists_certain (hs : s ∈ m.reachableStmts) (certain : root ∈ s.certain)
    (course : s.Course steps) : s.Passes R root r steps := by
  have part : ∀ c ∈ Node.ofStmt s, c ∈ m.nodes := fun _ hc =>
    Module.mem_nodes_of_mem_parts (Module.stmt_mem_nodes.2 hs) hc
  cases s with
  | functionDef d =>
    obtain ⟨annotations, -, rfl⟩ := course
    exact passes_turn path (List.mem_append_left _ certain) _
  | classDef d =>
    obtain rfl : steps = _ := course
    refine passes_turn path ?_ _
    exact ((Expr.argumentsInOrder_perm d.bases).append_left _).mem_iff.2 certain
  | delete => exact passes_delete path sub laid read course part certain
  | assign => exact passes_assign path sub laid read course part certain
  | augAssign => exact passes_augAssign path sub laid read course part certain
  | annAssign mark target hint value =>
    cases value with
    | none => cases certain
    | some => exact passes_annAssign path sub laid read course part certain
  | forLoop =>
    obtain ⟨rounds, ending, -, rfl⟩ := course
    obtain rfl := List.mem_singleton.1 certain
    exact passes_head path _
  | whileLoop => cases certain
  | tryBlock => cases certain
  | ifElse =>
    obtain rfl := List.mem_singleton.1 certain
    rcases course with rfl | rfl
    · exact passes_head path _
    · exact passes_head path _
  | withBlock => exact passes_withBlock path sub laid read course part certain
  | assert | expr =>
    obtain rfl : steps = _ := course
    obtain rfl := List.mem_singleton.1 certain
    exact passes_head path _
  | _ =>
    obtain rfl : steps = _ := course
    exact passes_turn path certain _

end Course

end Passes

section Runs

variable {m : Module} {r : Expr} {trace : List Occurrence} (laid : m.Laid)
  (read : .read r ∈ m.nodes) (hs : s ∈ m.reachableStmts)
include laid read hs

/-- What is certain in a certain expression of a statement gets its value once in each run. -/
theorem Runs.count_eq_one (run : s.Runs trace) (certain : root ∈ s.certain) (path : root.Surely r) :
    trace.count (.evaluated r.serial) = 1 := by
  obtain ⟨steps, course, runs⟩ := run
  obtain ⟨front, e, back, rfl, path', -⟩ :=
    course.exists_certain path (fun _ _ => id) laid read hs certain
  have alone := course.alone (laid.stmt_distinct hs) certain path.has
  obtain ⟨-, behind, ahead⟩ := List.pairwise_append.1 alone
  have inTree : e ∈ m.reachableExprs :=
    List.mem_flatMap.2 ⟨s, hs, course.subset (List.mem_append_right _ List.mem_cons_self)⟩
  have has : e.Has r.serial := Expr.Surely.has path'
  obtain ⟨inner, here, same⟩ := runs.count_eq
    (fun step hf has' => ahead step hf _ List.mem_cons_self has' has)
    fun step hb => (List.pairwise_cons.1 behind).1 step hb has
  rw [same, Expr.Surely.count_eq_one path' (laid.distinct inTree) here]

/-- What is certain in an early expression gets its value before the statement acts, if the path
takes the first one of targets in a target. -/
theorem Runs.neverBehind_acted (run : s.Runs trace) (certain : root ∈ s.certain)
    (early : root ∈ s.early)
    (path : ReflTransGen (fun p c => p.Certain c ∧ ¬ p.AssignsLater c) root r) :
    NeverBehind (.evaluated r.serial) .acted trace := by
  obtain ⟨steps, course, runs⟩ := run
  have surely {e : Expr}
      (path : ReflTransGen (fun p c => p.Certain c ∧ ¬ p.AssignsLater c) e r) : e.Surely r :=
    ReflTransGen.mono (fun _ _ => And.left) _ _ path
  obtain ⟨front, e, back, rfl, path', noAct⟩ :=
    course.exists_certain path (fun _ _ => And.left) laid read hs certain
  have alone := course.alone (laid.stmt_distinct hs) certain (surely path).has
  obtain ⟨-, behind, -⟩ := List.pairwise_append.1 alone
  exact runs.neverBehind_acted (noAct (fun _ _ => And.right) early) fun step hb =>
    (List.pairwise_cons.1 behind).1 step hb (surely path').has

end Runs

end Stmt

end MethodLift.Syntax
