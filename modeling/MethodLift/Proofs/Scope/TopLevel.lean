import MethodLift.Proofs.Scope.Headers
import MethodLift.Proofs.Syntax.Nesting

/-!
# What is bound at module level

Whether a module binds a name is read off its statements (`namesOfBody`).  Here this is compared with
what is evaluated at module level (`Module.scopedNodes` without a scope): each node there that binds
a name is one whose name is collected, or it stands in a header (`collected_or_in_header`).
-/

namespace MethodLift.Scope

open MethodLift.Syntax

variable {n : Node} {scopes : List Node} {p q : ScopedNode} {e : Expr} {s : Stmt} {name : String}

/-! ## Scopes -/

/-- No scope is around, or comprehensions only. -/
def InComprehensions (scopes : List Node) : Prop := ∀ s ∈ scopes, s.isComprehension = true

lemma mem_allIn {ns : List Node} : q ∈ Node.allIn scopes ns ↔ q.scopes = scopes ∧ q.node ∈ ns := by
  rw [Node.allIn, List.mem_map]
  constructor
  · rintro ⟨c, hc, rfl⟩
    exact ⟨rfl, hc⟩
  · rintro ⟨rfl, hc⟩
    exact ⟨q.node, hc, rfl⟩

lemma of_mem_clausesScoped {around inner : List Node} {gs : List (Generator Expr)}
    (hq : q ∈ Node.clausesScoped around inner gs) :
    q.scopes = inner ∨ q.scopes = around ∧ ∃ c ∈ firstIterable gs, q.node = .read c := by
  cases gs with
  | nil => nomatch hq
  | cons g gs =>
    rcases List.mem_cons.1 hq with rfl | hq
    · exact .inl rfl
    · rcases List.mem_cons.1 hq with rfl | hq
      · exact .inr ⟨rfl, g.iter, List.mem_singleton_self _, rfl⟩
      · exact .inl (mem_allIn.1 hq).1

/-- What is evaluated in some scopes is inside the node. -/
lemma mem_all_of_mem_scopedFrom (hp : p ∈ n.scopedFrom scopes) : p.node ∈ n.all := by
  induction n using Node.induction generalizing scopes with
  | step n ih =>
    rw [Node.scopedFrom_eq, List.mem_cons, List.mem_flatMap] at hp
    rcases hp with rfl | ⟨q, hq, hp⟩
    · exact n.self_mem_all
    · have part := Node.mem_parts_of_mem_evaluated hq
      exact Node.mem_all.2 (.inr ⟨_, part, ih _ part hp⟩)

/-- The parts of a node are evaluated in its scopes and perhaps one more, or outside of
comprehensions. -/
lemma scopes_of_mem_evaluated (hq : q ∈ n.evaluated scopes) :
    q.scopes = scopes ∨ q.scopes = n :: scopes
      ∨ q.scopes = scopes.dropWhile Node.isComprehension := by
  unfold Node.evaluated at hq
  split at hq
  · exact (List.mem_append.1 hq).imp (mem_allIn.1 · |>.1) fun hq => .inl (mem_allIn.1 hq).1
  · exact (List.mem_append.1 hq).imp (mem_allIn.1 · |>.1) fun hq => .inl (mem_allIn.1 hq).1
  · exact (List.mem_append.1 hq).imp (mem_allIn.1 · |>.1) fun hq => .inl (mem_allIn.1 hq).1
  · rcases List.mem_append.1 hq with hq | hq
    · exact .inr (.inl (mem_allIn.1 hq).1)
    · rcases of_mem_clausesScoped hq with inner | ⟨around, -⟩
      · exact .inr (.inl inner)
      · exact .inl around
  · rcases List.mem_pair.1 hq with rfl | rfl
    · exact .inr (.inr rfl)
    · exact .inl rfl
  · exact .inl (mem_allIn.1 hq).1

/-- Inside a scope that is no comprehension nothing is evaluated at module level. -/
lemma not_top (around : ∃ s ∈ scopes, s.isComprehension = false) (hp : p ∈ n.scopedFrom scopes) :
    p.scopes ≠ [] := by
  induction n using Node.induction generalizing scopes with
  | step n ih =>
    rw [Node.scopedFrom_eq, List.mem_cons, List.mem_flatMap] at hp
    obtain ⟨s, hs, scope⟩ := around
    rcases hp with rfl | ⟨q, hq, hp⟩
    · exact List.ne_nil_of_mem hs
    · refine ih _ (Node.mem_parts_of_mem_evaluated hq) ⟨s, ?_, scope⟩ hp
      rcases scopes_of_mem_evaluated hq with same | more | outside
      · exact same ▸ hs
      · exact more ▸ List.mem_cons_of_mem _ hs
      · rw [outside]
        rw [← List.takeWhile_append_dropWhile (p := Node.isComprehension) (l := scopes),
          List.mem_append] at hs
        exact hs.resolve_left fun skipped => by simp [List.mem_takeWhile_imp skipped] at scope

/-! ## Expressions -/

/-- The collector has a name of an expression, or the node that binds it is in a header. -/
def Seen (nested : Bool) (e : Expr) (x : Node) (name : String) : Prop :=
  name ∈ boundByExpr nested e ∨ ∃ h ∈ e.headers, x ∈ (Node.read h).all

namespace Seen

variable {nested nested' : Bool} {x : Node} {c : Expr}

/-- What is seen in a child is seen, where a child's names are the expression's. -/
lemma of_child (seen : Seen nested' c x name)
    (names : boundByExpr nested' c ⊆ boundByExpr nested e) (hc : c ∈ e.children)
    (notLambda : ∀ m ps b, e ≠ .lambda m ps b) : Seen nested e x name := by
  rcases seen with seen | ⟨h, hh, inside⟩
  · exact .inl (names seen)
  · rw [Seen, Expr.headers_eq notLambda]
    exact .inr ⟨h, List.mem_flatMap.2 ⟨c, hc, hh⟩, inside⟩

/-- What is seen in the default of a lambda is in a header. -/
lemma of_default {m : Mark} {params : Parameters Expr} {body : Expr} (hc : c ∈ defaults params)
    (inside : x ∈ (Node.read c).all) : Seen nested (.lambda m params body) x name := by
  rw [Seen, Expr.headers_lambda]
  exact .inr ⟨c, List.mem_append_left _ hc, inside⟩

lemma of_load (seen : Seen nested' e x name) (load : e.For .load) : Seen nested e x name := by
  rwa [Seen, boundByExpr_of_load load, ← boundByExpr_of_load load]

end Seen

/-- An expression that opens no scope and is no assignment is evaluated with all its parts where it
is. -/
lemma evaluated_plain (is : n.expr? = some e) (notLambda : ∀ m ps b, e ≠ .lambda m ps b)
    (notComprehension : ∀ m k x v gs, e ≠ .comprehension m k x v gs)
    (notNamed : ∀ m t v, e ≠ .named m t v) : n.evaluated scopes = Node.allIn scopes n.parts := by
  unfold Node.evaluated
  split
  · nomatch is
  · nomatch is
  · exact absurd (Option.some.inj is).symm (notLambda _ _ _)
  · exact absurd (Option.some.inj is).symm (notComprehension _ _ _ _ _)
  · exact absurd (Option.some.inj is).symm (notNamed _ _ _)
  · rfl

/-- What is evaluated at module level in an expression is seen by the collector or in a header. -/
theorem seen_of_mem_scopedFrom (laid : n.Laid) (is : n.expr? = some e)
    (fits : e.Everywhere Expr.Fitting) (only : InComprehensions scopes)
    (hp : p ∈ n.scopedFrom scopes) (top : p.scopes = []) (bound : name ∈ p.node.bound) :
    Seen (!scopes.isEmpty) e p.node name := by
  induction n using Node.induction generalizing e scopes with
  | step n ih =>
    have read (load : e.ctx = .load) : n = .read e := eq_read_of_load laid.here.role is load
    rw [Node.scopedFrom_eq, List.mem_cons, List.mem_flatMap] at hp
    rcases hp with rfl | ⟨q, hq, hp⟩
    · -- the expression itself is the name that is bound
      obtain rfl : scopes = [] := top
      have role := laid.here.role
      cases n with
      | read d => cases bound
      | stmt s => cases is
      | target d =>
        obtain rfl := Option.some.inj is
        cases d with
        | name m id ctx =>
          have stored : ctx ≠ .load := role
          obtain rfl : name = id := List.mem_singleton.1 bound
          exact .inl (by simp [boundByExpr, stored])
        | _ => cases bound
    have part := Node.mem_parts_of_mem_evaluated hq
    obtain ⟨d, hd, isPart⟩ := Node.expr?_of_mem_parts is part
    have inside (only : InComprehensions q.scopes) : Seen (!q.scopes.isEmpty) d p.node name :=
      ih _ part (laid.part part) isPart (fits.child hd) only hp
    cases e with
    | lambda m params body =>
      obtain rfl := read rfl
      rcases List.mem_append.1 hq with hq | hq
      · obtain ⟨c, hc, same⟩ := List.mem_map.1 (mem_allIn.1 hq).2
        have default : c ∈ defaults params := by
          obtain ⟨param, hparam, hc⟩ := List.mem_flatMap.1 hc
          rw [laid.here.formed _ rfl param hparam] at hc
          exact List.mem_flatMap.2 ⟨param, hparam, hc⟩
        exact .of_default default (same ▸ mem_all_of_mem_scopedFrom hp)
      · have around : q.scopes = .read (.lambda m params body) :: scopes := (mem_allIn.1 hq).1
        exact absurd top (not_top ⟨_, around ▸ List.mem_cons_self, rfl⟩ hp)
    | comprehension m kind element value gs =>
      obtain rfl := read rfl
      have names : boundByExpr true d
          ⊆ boundByExpr (!scopes.isEmpty) (.comprehension m kind element value gs) := by
        rw [boundByExpr_comprehension]
        exact fun _ there => List.mem_flatMap.2 ⟨d, hd, there⟩
      have comprehensions : InComprehensions
          (.read (.comprehension m kind element value gs) :: scopes) :=
        List.forall_mem_cons.2 ⟨rfl, only⟩
      have inner (same : q.scopes = .read (.comprehension m kind element value gs) :: scopes) :
          Seen true d p.node name := by
        rw [same] at inside
        exact inside comprehensions
      refine Seen.of_child ?_ names hd (by rintro _ _ _ ⟨⟩)
      rcases List.mem_append.1 hq with hq | hq
      · exact inner (mem_allIn.1 hq).1
      · rcases of_mem_clausesScoped hq with same | ⟨same, c, hc, isRead⟩
        · exact inner same
        · -- the first iterable is only read
          rw [isRead] at isPart
          obtain rfl := Option.some.inj isPart
          rw [same] at inside
          have load := fits.here.reads _ (mem_reads_of_mem_firstIterable m kind element value hc)
          exact (inside only).of_load ⟨load, fits.child hd⟩
    | named m target value =>
      obtain rfl := read rfl
      obtain ⟨mark, id, ctx, rfl⟩ := fits.here.namesTarget
      rcases List.mem_pair.1 hq with rfl | rfl
      · rw [Node.scopedFrom_eq, List.mem_cons] at hp
        rcases hp with rfl | hp
        · obtain rfl : name = id := List.mem_singleton.1 bound
          exact .inl (by simp [boundByExpr, Expr.asName])
        · cases hp
      · obtain rfl := Option.some.inj isPart
        refine (inside only).of_child ?_ hd (by rintro _ _ _ ⟨⟩)
        rw [boundByExpr]
        exact List.subset_append_right _ _
    | name m id ctx => cases hd
    | _ =>
      rw [evaluated_plain is (by rintro _ _ _ ⟨⟩) (by rintro _ _ _ _ _ ⟨⟩) (by rintro _ _ _ ⟨⟩)] at hq
      obtain ⟨same, -⟩ := mem_allIn.1 hq
      rw [same] at inside
      refine (inside only).of_child (fun _ there => ?_) hd (by rintro _ _ _ ⟨⟩)
      rw [boundByExpr_eq (by rintro _ _ _ ⟨⟩) (by rintro _ _ _ ⟨⟩) (by rintro _ _ _ ⟨⟩)
        (by rintro _ _ _ _ _ ⟨⟩)]
      exact List.mem_flatMap.2 ⟨d, hd, there⟩

/-! ## Statements -/

/-- What a statement itself binds is collected. -/
lemma collected_of_bound (bound : name ∈ (Node.stmt s).bound) : name ∈ (namesOfStmt s).bound := by
  cases s with
  | functionDef | classDef =>
    rw [namesOfStmt]
    exact bound
  | importModules | importFrom | tryBlock =>
    rw [namesOfStmt_eq (by rintro _ ⟨⟩) (by rintro _ ⟨⟩)]
    exact List.mem_append_left _ (List.mem_append_left _ bound)
  | _ => cases bound

/-- A statement that opens a scope: only its header is evaluated at module level. -/
lemma in_header {body : List Node}
    (headers : s.headers = s.exprs ++ s.exprs.flatMap Expr.headers)
    (hq : q ∈ Node.allIn [] (Node.reads s.exprs) ++ Node.allIn [.stmt s] body)
    (hp : p ∈ q.node.scopedFrom q.scopes) (top : p.scopes = []) :
    ∃ h ∈ s.headers, p.node ∈ (Node.read h).all := by
  rcases List.mem_append.1 hq with hq | hq
  · obtain ⟨c, hc, same⟩ := List.mem_map.1 (mem_allIn.1 hq).2
    refine ⟨c, ?_, same ▸ mem_all_of_mem_scopedFrom hp⟩
    rw [headers]
    exact List.mem_append_left _ hc
  · have around : q.scopes = [.stmt s] := (mem_allIn.1 hq).1
    exact absurd top (not_top ⟨_, around ▸ List.mem_cons_self, rfl⟩ hp)

/-- A statement that opens no scope: its expressions and the statements in it. -/
lemma collected_of_part (notFunction : ∀ d, s ≠ .functionDef d) (notClass : ∀ d, s ≠ .classDef d)
    (laid : (Node.stmt s).Laid) (fits : s.Everywhere Stmt.Fitting)
    (inside : ∀ c ∈ s.children, p ∈ (Node.stmt c).scopedFrom [] →
      name ∈ (namesOfStmt c).bound ∨ ∃ h ∈ c.headers, p.node ∈ (Node.read h).all)
    (part : q.node ∈ Node.ofStmt s) (hp : p ∈ q.node.scopedFrom []) (top : p.scopes = [])
    (bound : name ∈ p.node.bound) :
    name ∈ (namesOfStmt s).bound ∨ ∃ h ∈ s.headers, p.node ∈ (Node.read h).all := by
  rw [namesOfStmt_eq notFunction notClass, Stmt.headers_eq notFunction notClass]
  cases isPart : q.node.expr? with
  | some e =>
    have he : e ∈ s.exprs :=
      Node.filterMap_expr?_ofStmt s ▸ List.mem_filterMap.2 ⟨_, part, isPart⟩
    rcases seen_of_mem_scopedFrom (laid.part part) isPart (fits.here.everywhere he)
      (List.forall_mem_nil _) hp top bound with seen | ⟨h, hh, there⟩
    · refine .inl (List.mem_append_left _ (List.mem_append_right _ ?_))
      exact List.mem_flatMap.2 ⟨e, he, seen⟩
    · exact .inr ⟨h, List.mem_append_left _ (List.mem_flatMap.2 ⟨e, he, hh⟩), there⟩
  | none =>
    obtain ⟨c, isStmt⟩ : ∃ c, q.node = .stmt c := by
      cases node : q.node with
      | stmt c => exact ⟨c, rfl⟩
      | _ =>
        rw [node] at isPart
        nomatch isPart
    rw [isStmt] at part hp
    have hc := Node.mem_children_of_mem_ofStmt part
    rcases inside c hc hp with collected | ⟨h, hh, there⟩
    · refine .inl (List.mem_append_right _ ?_)
      exact (@Standing.mem_among_flatten name .bound _).2 ⟨_, List.mem_map_of_mem hc, collected⟩
    · exact .inr ⟨h, List.mem_append_right _ (List.mem_flatMap.2 ⟨c, hc, hh⟩), there⟩

/-- What is evaluated at module level in a statement is collected or in a header. -/
theorem collected_of_mem_scopedFrom (laid : (Node.stmt s).Laid) (fits : s.Everywhere Stmt.Fitting)
    (hp : p ∈ (Node.stmt s).scopedFrom []) (top : p.scopes = []) (bound : name ∈ p.node.bound) :
    name ∈ (namesOfStmt s).bound ∨ ∃ h ∈ s.headers, p.node ∈ (Node.read h).all := by
  induction s using Stmt.branching.induction with
  | step s ih =>
    rw [Node.scopedFrom_eq, List.mem_cons, List.mem_flatMap] at hp
    rcases hp with rfl | ⟨q, hq, hp⟩
    · exact .inl (collected_of_bound bound)
    have part := Node.mem_parts_of_mem_evaluated hq
    cases s with
    | functionDef d => exact .inr (in_header (by rw [Stmt.headers]) hq hp top)
    | classDef d => exact .inr (in_header (by rw [Stmt.headers]) hq hp top)
    | _ =>
      have here : q.scopes = [] := (mem_allIn.1 hq).1
      rw [here] at hp
      refine collected_of_part (by rintro _ ⟨⟩) (by rintro _ ⟨⟩) laid fits (fun c hc hp => ?_) part hp top bound
      exact ih c hc (laid.part (Module.stmt_mem_parts hc)) (fits.child hc) hp

/-- What is evaluated at module level is collected or in a header. -/
theorem collected_or_in_header {m : Module} (laid : m.Laid)
    (fits : ∀ s ∈ m.body, s.Everywhere Stmt.Fitting) (hp : p ∈ m.scopedNodes) (top : p.scopes = [])
    (bound : name ∈ p.node.bound) :
    moduleBindsName m name = true ∨ ∃ h ∈ m.body.flatMap Stmt.headers, p.node ∈ (Node.read h).all := by
  obtain ⟨n, hn, hp⟩ := List.mem_flatMap.1 hp
  obtain ⟨s, hs, rfl⟩ := List.mem_map.1 hn
  have here : (Node.stmt s).Laid := laid.node (List.mem_flatMap.2 ⟨_, hn, Node.self_mem_all _⟩)
  rcases collected_of_mem_scopedFrom here (fits s hs) hp top bound with collected | ⟨h, hh, there⟩
  · refine .inl (List.contains_iff_mem.2 ?_)
    exact (@Standing.mem_among_flatten name .bound _).2 ⟨_, List.mem_map_of_mem hs, collected⟩
  · exact .inr ⟨h, List.mem_flatMap.2 ⟨s, hs, hh⟩, there⟩

end MethodLift.Scope
