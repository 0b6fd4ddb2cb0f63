import MethodLift.Proofs.Syntax.Containment
import MethodLift.Proofs.Syntax.Parents

/-!
# The order of evaluation

When a statement runs, its expressions are evaluated in the order that the language prescribes, and
in between the statement does what it is there for: it binds and deletes names, enters contexts, runs
its bodies.  All of the latter is one kind of step here, an act.  Only runs that come to the end of
the statement are considered.

`Expr.Course` and `Stmt.Course` say which parts of a node are evaluated, and in which order.  Where
values decide, or versions of the language differ (whether annotations are evaluated), all ways are
courses.  What runs in a frame of its own, like the body of a lambda, is no part of the course.  A
course is carried out part by part (`Runs`), and the trace tells which expression got its value when.

Two things are told from traces: how often something happens, and that something never happens behind
something else (`NeverBehind`).  An expression that is certain to be evaluated in each expression
around it is evaluated once (`Surely.count_eq_one`).  Of two expressions, the one never gets its value
behind the other if that holds wherever their courses part (`Runs.neverBehind`).
-/

namespace MethodLift.Syntax

/-! ## Courses of expressions -/

/-- Whether an argument is passed by name, or as a mapping of names. -/
def ArgKind.isByName : ArgKind → Bool
  | .keyword _ | .doubleStar => true
  | .positional | .star => false

/-- The values of arguments in the order in which they are evaluated: those that are passed by name
come last, wherever they stand. -/
def argumentsInOrder (args : List (Arg Expr)) : List Expr :=
  (args.filter (!·.kind.isByName)).map (·.value) ++ (args.filter (·.kind.isByName)).map (·.value)

/-- The defaults in a parameter list. -/
def Parameters.defaults {ε : Type} (ps : Parameters ε) : List ε := ps.params.filterMap (·.default)

/-- The annotations in a parameter list. -/
def Parameters.annotations {ε : Type} (ps : Parameters ε) : List ε :=
  ps.params.filterMap fun p => p.annotation

lemma Parameters.defaults_sublist {ε : Type} (ps : Parameters ε) : ps.defaults.Sublist ps.exprs := by
  rw [defaults, List.filterMap_eq_flatMap_toList]
  exact List.Sublist.flatMap_right _ fun _ _ => List.sublist_append_right _ _

lemma Parameters.annotations_sublist {ε : Type} (ps : Parameters ε) :
    ps.annotations.Sublist ps.exprs := by
  rw [annotations, List.filterMap_eq_flatMap_toList]
  exact List.Sublist.flatMap_right _ fun _ _ => List.sublist_append_left _ _

/-- The parts of an expression that are evaluated when the expression is, in their order. -/
def Expr.Course : Expr → List Expr → Prop
  | boolean _ _ values, ran => ran <+: values ∧ (values ≠ [] → ran ≠ [])
  | compare _ left _ comparators, ran =>
    ∃ compared, compared <+: comparators ∧ (comparators ≠ [] → compared ≠ [])
      ∧ ran = left :: compared
  | conditional _ test body orelse, ran => ran = [test, body] ∨ ran = [test, orelse]
  | lambda _ params _, ran => ran = params.defaults
  | named _ _ value, ran => ran = [value]
  | call _ func args, ran => ran = func :: argumentsInOrder args
  -- behind the first iterable, everything else can run any number of times
  | comprehension _ _ element value (g :: gs), ran =>
    ∃ rounds, (∀ d ∈ rounds, d ∈ element :: value.toList ++ g.target :: g.conditions
      ++ gs.flatMap (·.exprs)) ∧ ran = g.iter :: rounds
  | e, ran => ran = e.children

/-! ## Courses of statements -/

/-- A step of a statement. -/
inductive Action
  | evaluate (e : Expr)
  /-- Something that the statement is there for: to bind, to delete, to enter, to run a body. -/
  | act

/-- Expressions that are evaluated one after the other. -/
def evaluations (es : List Expr) : List Action := es.map .evaluate

/-- Whether a target consists of targets. -/
def Expr.holdsTargets : Expr → Bool
  | starred .. | tuple .. | list .. => true
  | _ => false

/-- What is done to assign to a target or to delete it: what stands in the target is evaluated, then
it is bound.  Targets in targets take their turns. -/
def Expr.assigning (e : Expr) : List Action :=
  if e.holdsTargets then e.children.attach.flatMap fun c => c.1.assigning
  else evaluations e.children ++ [.act]
termination_by sizeOf e
decreasing_by exact sizeOf_lt_of_mem_children c.2

lemma Expr.assigning_eq (e : Expr) : e.assigning
    = if e.holdsTargets then e.children.flatMap assigning else evaluations e.children ++ [.act] := by
  rw [assigning]
  congr 1
  conv => rhs; rw [← List.attach_map_subtype_val e.children, List.flatMap_map]

/-- The steps of an entry of a `with`: its context is evaluated and entered, and assigned. -/
def WithItem.actions (item : WithItem) : List Action :=
  .evaluate item.context :: .act :: item.target.toList.flatMap Expr.assigning

/-- The steps of a statement that comes to its end. -/
def Stmt.Course : Stmt → List Action → Prop
  | functionDef d, steps =>
    ∃ annotations, (annotations = [] ∨ annotations = d.params.annotations ++ d.returns.toList)
      ∧ steps = evaluations (d.decorators ++ d.params.defaults ++ annotations) ++ [.act]
  | classDef d, steps => steps = evaluations (d.decorators ++ argumentsInOrder d.bases) ++ [.act]
  | delete _ targets, steps => steps = targets.flatMap Expr.assigning
  | assign _ targets value, steps => steps = .evaluate value :: targets.flatMap Expr.assigning
  | augAssign _ target _ value, steps => steps = evaluations (target.children ++ [value]) ++ [.act]
  | annAssign _ target hint (some value), steps =>
    ∃ annotated, (annotated = [] ∨ annotated = [hint])
      ∧ steps = .evaluate value :: target.assigning ++ evaluations annotated
  | annAssign _ target hint none, steps =>
    ∃ held annotated, (held = [] ∨ held = target.children)
      ∧ (annotated = [] ∨ annotated = [hint]) ∧ steps = evaluations (held ++ annotated)
  | forLoop _ _ target iter _ _, steps =>
    ∃ rounds ending, (ending = [] ∨ ending = [.act])
      ∧ steps = .evaluate iter :: (List.replicate rounds (target.assigning ++ [.act])).flatten
        ++ ending
  | whileLoop _ test _ _, steps =>
    ∃ rounds ending, (ending = [] ∨ ending = [.act])
      ∧ steps = (List.replicate rounds [.evaluate test, .act]).flatten ++ .evaluate test :: ending
  | ifElse _ _ test _ _, steps => steps = [.evaluate test] ∨ steps = [.evaluate test, .act]
  | withBlock _ _ items _, steps =>
    steps = items.flatMap WithItem.actions ++ [.act]
  | tryBlock _ _ handlers _ _, steps =>
    ∃ types, types <+: handlers.flatMap (·.type.toList) ∧ steps = .act :: evaluations types ++ [.act]
  | assert _ test _, steps => steps = [.evaluate test]
  | expr _ value, steps => steps = [.evaluate value]
  | s, steps => steps = evaluations s.exprs ++ [.act]

/-! ## Runs -/

/-- What is seen of a run. -/
inductive Occurrence
  /-- The expression with a serial number has got its value. -/
  | evaluated (serial : ℕ)
  | acted
deriving DecidableEq

/-- Steps are carried out one after the other; an expression gets its value when its parts have
theirs. -/
inductive Runs : List Action → List Occurrence → Prop
  | nil : Runs [] []
  | act {steps : List Action} {trace : List Occurrence} (rest : Runs steps trace) :
    Runs (.act :: steps) (.acted :: trace)
  | evaluate {e : Expr} {ran : List Expr} {steps : List Action} {inner trace : List Occurrence}
    (course : e.Course ran) (parts : Runs (evaluations ran) inner) (rest : Runs steps trace) :
    Runs (.evaluate e :: steps) (inner ++ .evaluated e.serial :: trace)

/-- A statement runs to its end. -/
def Stmt.Runs (s : Stmt) (trace : List Occurrence) : Prop :=
  ∃ steps, s.Course steps ∧ Syntax.Runs steps trace

/-- One thing never happens behind another one. -/
def NeverBehind (x y : Occurrence) (trace : List Occurrence) : Prop :=
  trace.Pairwise fun a b => a = y → b ≠ x

/-! ## What is in a run -/

/-- An expression is, or has inside it, the one with a serial number. -/
def Expr.Has (e : Expr) (n : ℕ) : Prop := ∃ d ∈ e.descendants, d.serial = n

/-- What is evaluated in a step. -/
def Action.Has (n : ℕ) : Action → Prop
  | evaluate e => e.Has n
  | act => False

namespace Expr

variable {e c : Expr} {n : ℕ}

lemma has_self (e : Expr) : e.Has e.serial := ⟨e, branching.mem_descendants.2 (.inl rfl), rfl⟩

lemma has_iff : e.Has n ↔ e.serial = n ∨ ∃ c ∈ e.children, c.Has n := by
  constructor
  · rintro ⟨d, hd, same⟩
    rcases branching.mem_descendants.1 hd with rfl | ⟨c, hc, hd⟩
    · exact .inl same
    · exact .inr ⟨c, hc, d, hd, same⟩
  · rintro (same | ⟨c, hc, d, hd, same⟩)
    · exact ⟨e, branching.mem_descendants.2 (.inl rfl), same⟩
    · exact ⟨d, branching.mem_descendants.2 (.inr ⟨c, hc, hd⟩), same⟩

lemma Has.of_child (hc : c ∈ e.children) (h : c.Has n) : e.Has n := has_iff.2 (.inr ⟨c, hc, h⟩)

/-- Arguments in the order of evaluation are the arguments. -/
lemma argumentsInOrder_perm (args : List (Arg Expr)) :
    (argumentsInOrder args).Perm (args.map (·.value)) := by
  rw [argumentsInOrder, ← List.map_append]
  refine List.Perm.map _ (List.perm_append_comm.trans ?_)
  exact List.filter_append_perm _ args

/-- What is evaluated in an expression is directly inside it. -/
lemma Course.subset {ran : List Expr} (h : e.Course ran) : ran ⊆ e.children := by
  cases e with
  | boolean => exact h.1.subset
  | compare =>
    obtain ⟨compared, front, -, rfl⟩ := h
    exact List.cons_subset_cons _ front.subset
  | conditional =>
    rcases h with rfl | rfl <;> simp [children]
  | lambda mark params body =>
    obtain rfl : ran = params.defaults := h
    exact fun d hd => List.mem_append_left _ (params.defaults_sublist.subset hd)
  | named mark target value =>
    obtain rfl : ran = [value] := h
    simp [children]
  | call mark func args =>
    obtain rfl : ran = func :: argumentsInOrder args := h
    exact List.cons_subset_cons _ (argumentsInOrder_perm args).subset
  | comprehension mark kind element value generators =>
    cases generators with
    | nil =>
      obtain rfl : ran = _ := h
      exact List.Subset.refl _
    | cons g gs =>
      obtain ⟨rounds, each, rfl⟩ := h
      refine List.cons_subset.2 ⟨by simp [children, Generator.exprs], fun d hd => ?_⟩
      have mem := each d hd
      simp only [children, Generator.exprs, List.flatMap_cons, List.mem_append, List.mem_cons] at *
      tauto
  | _ =>
    obtain rfl : ran = _ := h
    exact List.Subset.refl _

end Expr

namespace Runs

variable {steps front back : List Action} {trace : List Occurrence} {e : Expr} {n : ℕ}

/-- Steps in front and steps behind run one after the other. -/
lemma append_iff : Runs (front ++ back) trace
    ↔ ∃ t u, Runs front t ∧ Runs back u ∧ trace = t ++ u := by
  constructor
  · intro h
    induction front generalizing trace with
    | nil => exact ⟨[], trace, .nil, h, rfl⟩
    | cons step front ih =>
      rw [List.cons_append] at h
      cases h with
      | act rest =>
        obtain ⟨t, u, first, second, rfl⟩ := ih rest
        exact ⟨_, u, .act first, second, rfl⟩
      | evaluate course parts rest =>
        obtain ⟨t, u, first, second, rfl⟩ := ih rest
        exact ⟨_, u, .evaluate course parts first, second, by simp⟩
  · rintro ⟨t, u, first, second, rfl⟩
    induction first with
    | nil => exact second
    | act _ ih => exact .act ih
    | @evaluate e ran steps inner trace course parts _ _ ih =>
      rw [List.append_assoc, List.cons_append]
      exact .evaluate course parts ih

/-- One step that evaluates an expression. -/
lemma evaluate_iff : Runs [.evaluate e] trace
    ↔ ∃ ran inner, e.Course ran ∧ Runs (evaluations ran) inner
      ∧ trace = inner ++ [.evaluated e.serial] := by
  constructor
  · intro h
    cases h with
    | evaluate course parts rest =>
      cases rest
      exact ⟨_, _, course, parts, rfl⟩
  · rintro ⟨ran, inner, course, parts, rfl⟩
    exact .evaluate course parts .nil

/-- What is evaluated in a run is in one of its steps. -/
lemma exists_has (h : Runs steps trace) (mem : .evaluated n ∈ trace) :
    ∃ step ∈ steps, step.Has n := by
  induction h with
  | nil => nomatch mem
  | act _ ih =>
    obtain ⟨step, hs, has⟩ := ih (by simpa using mem)
    exact ⟨step, List.mem_cons_of_mem _ hs, has⟩
  | @evaluate e ran steps inner trace course _ _ ihParts ihRest =>
    rcases List.mem_append.1 mem with mem | mem
    · obtain ⟨step, hs, has⟩ := ihParts mem
      obtain ⟨d, hd, rfl⟩ := List.mem_map.1 hs
      exact ⟨_, List.mem_cons_self, Expr.Has.of_child (course.subset hd) has⟩
    · rcases List.mem_cons.1 mem with same | mem
      · obtain rfl := Occurrence.evaluated.inj same
        exact ⟨_, List.mem_cons_self, e.has_self⟩
      · obtain ⟨step, hs, has⟩ := ihRest mem
        exact ⟨step, List.mem_cons_of_mem _ hs, has⟩

lemma not_mem (h : Runs steps trace) (none : ∀ step ∈ steps, ¬ step.Has n) :
    .evaluated n ∉ trace := by
  intro mem
  obtain ⟨step, hs, has⟩ := h.exists_has mem
  exact none step hs has

/-- Evaluations are no acts. -/
lemma acted_mem (h : Runs steps trace) (mem : .acted ∈ trace) : .act ∈ steps := by
  induction h with
  | nil => nomatch mem
  | act => exact List.mem_cons_self
  | @evaluate e ran steps inner trace _ _ _ ihParts ihRest =>
    rcases List.mem_append.1 mem with mem | mem
    · obtain ⟨d, -, same⟩ := List.mem_map.1 (ihParts mem)
      nomatch same
    · exact List.mem_cons_of_mem _ (ihRest (by simpa using mem))

end Runs

/-! ## Once in a run -/

namespace Expr

variable {e c r : Expr} {n : ℕ} {ran : List Expr}

/-- No number belongs to two expressions in an expression. -/
def Distinct (e : Expr) : Prop := (e.descendants.map (·.serial)).Nodup

/-- Expressions that have no number in common. -/
def Disjoint (a b : Expr) : Prop := ∀ n, a.Has n → ¬ b.Has n

lemma Disjoint.symm {a b : Expr} (h : a.Disjoint b) : b.Disjoint a :=
  fun n has has' => h n has' has

instance : Std.Symm Disjoint := ⟨fun _ _ => Disjoint.symm⟩

lemma has_iff_mem : e.Has n ↔ n ∈ e.descendants.map (·.serial) := List.mem_map.symm

namespace Distinct

lemma cases (h : e.Distinct) : (∀ c ∈ e.children, ¬ c.Has e.serial)
    ∧ (∀ c ∈ e.children, c.Distinct) ∧ e.children.Pairwise Disjoint := by
  rw [Distinct, descendants_eq, List.map_cons, List.nodup_cons, List.map_flatMap,
    List.nodup_flatMap] at h
  obtain ⟨own, each, apart⟩ := h
  refine ⟨fun c hc has => own (List.mem_flatMap.2 ⟨c, hc, has_iff_mem.1 has⟩), each, ?_⟩
  exact apart.imp fun disjoint n has has' => disjoint (has_iff_mem.1 has) (has_iff_mem.1 has')

lemma own (h : e.Distinct) : ∀ c ∈ e.children, ¬ c.Has e.serial := h.cases.1

lemma child (h : e.Distinct) : ∀ c ∈ e.children, c.Distinct := h.cases.2.1

lemma disjoint (h : e.Distinct) : e.children.Pairwise Disjoint := h.cases.2.2

/-- What has a number is one part of an expression. -/
lemma eq_of_has (h : e.Distinct) {d : Expr} (hc : c ∈ e.children) (hd : d ∈ e.children)
    (has : c.Has n) (has' : d.Has n) : c = d := by
  by_contra other
  exact h.disjoint.forall hc hd other n has has'

end Distinct

/-- A part that is evaluated once whenever the expression is. -/
def Certain : Expr → Expr → Prop
  | boolean _ _ values, c => values.head? = some c
  | compare _ left _ comparators, c => c = left ∨ comparators.head? = some c
  | conditional _ test _ _, c => c = test
  | lambda _ params _, c => c ∈ params.defaults
  | named _ _ value, c => c = value
  | comprehension _ _ _ _ generators, c => ∃ g ∈ generators.head?, c = g.iter
  | e, c => c ∈ e.children

/-- A course has a certain part, and the rest of the course is about other parts. -/
lemma Course.exists_certain (course : e.Course ran) (certain : e.Certain c) (distinct : e.Distinct)
    (has : c.Has n) : ∃ front back, ran = front ++ c :: back ∧ (∀ d ∈ front, ¬ d.Has n)
      ∧ ∀ d ∈ back, ¬ d.Has n := by
  -- parts that take their turns once do not have the number twice
  have once (mem : c ∈ ran) (turns : ran.Subperm e.children) :
      ∃ front back, ran = front ++ c :: back ∧ (∀ d ∈ front, ¬ d.Has n)
        ∧ ∀ d ∈ back, ¬ d.Has n := by
    obtain ⟨ran', perm, part⟩ := turns
    have apart := (distinct.disjoint.sublist part).perm perm Disjoint.symm
    obtain ⟨front, back, rfl⟩ := List.append_of_mem mem
    obtain ⟨-, behind, ahead⟩ := List.pairwise_append.1 apart
    exact ⟨front, back, rfl, fun d hd has' => ahead d hd c List.mem_cons_self n has' has,
      fun d hd => (List.pairwise_cons.1 behind).1 d hd n has⟩
  cases e with
  | boolean mark op values =>
    obtain ⟨front, some⟩ := course
    cases values with
    | nil => cases certain
    | cons value values =>
      obtain rfl : value = c := Option.some.inj certain
      cases ran with
      | nil => exact absurd rfl (some (List.cons_ne_nil _ _))
      | cons d ran =>
        obtain rfl : d = value := (List.cons_prefix_cons.1 front).1
        exact once List.mem_cons_self front.sublist.subperm
  | compare mark left ops comparators =>
    obtain ⟨compared, front, some, rfl⟩ := course
    have turns : (left :: compared).Subperm (left :: comparators) :=
      (front.sublist.cons_cons left).subperm
    rcases certain with rfl | first
    · exact once List.mem_cons_self turns
    · cases comparators with
      | nil => cases first
      | cons value comparators =>
        obtain rfl : value = c := Option.some.inj first
        cases compared with
        | nil => exact absurd rfl (some (List.cons_ne_nil _ _))
        | cons d compared =>
          obtain rfl : d = value := (List.cons_prefix_cons.1 front).1
          exact once (List.mem_cons_of_mem _ List.mem_cons_self) turns
  | conditional mark test body orelse =>
    obtain rfl : c = test := certain
    rcases course with rfl | rfl
    · exact once List.mem_cons_self ⟨[body, c], List.Perm.swap .., by simp [children]⟩
    · exact once List.mem_cons_self (by simp [children, List.Sublist.subperm])
  | lambda mark params body =>
    obtain rfl : ran = params.defaults := course
    refine once certain (params.defaults_sublist.trans ?_).subperm
    exact List.sublist_append_left _ _
  | named mark target value =>
    obtain rfl : ran = [value] := course
    exact once (List.mem_singleton.2 certain) (by simp [children, List.Sublist.subperm])
  | call mark func args =>
    obtain rfl : ran = func :: argumentsInOrder args := course
    have perm : (func :: argumentsInOrder args).Perm (children (.call mark func args)) :=
      (argumentsInOrder_perm args).cons func
    exact once (perm.mem_iff.2 certain) perm.subperm
  | comprehension mark kind element value generators =>
    cases generators with
    | nil =>
      obtain ⟨g, none, -⟩ := certain
      cases none
    | cons g gs =>
      obtain ⟨rounds, each, rfl⟩ := course
      obtain ⟨g', first, rfl⟩ := certain
      obtain rfl : g = g' := by simpa using first
      have perm : (children (.comprehension mark kind element value (g :: gs))).Perm
          (g.iter :: (element :: value.toList ++ g.target :: g.conditions
            ++ gs.flatMap (·.exprs))) := by
        have middle : ((element :: value.toList ++ [g.target]) ++ g.iter
            :: (g.conditions ++ gs.flatMap (·.exprs))).Perm _ := List.perm_middle
        simpa [children, Generator.exprs] using middle
      have apart := (List.pairwise_cons.1 (distinct.disjoint.perm perm Disjoint.symm)).1
      exact ⟨[], rounds, rfl, List.forall_mem_nil _, fun d hd => apart d (each d hd) n has⟩
  | _ =>
    obtain rfl : ran = _ := course
    exact once certain (List.Subperm.refl _)

lemma Certain.child (h : e.Certain c) : c ∈ e.children := by
  cases e with
  | boolean => exact List.mem_of_mem_head? h
  | compare =>
    rcases h with rfl | first
    · exact List.mem_cons_self
    · exact List.mem_cons_of_mem _ (List.mem_of_mem_head? first)
  | conditional =>
    obtain rfl : c = _ := h
    simp [children]
  | lambda mark params body =>
    exact List.mem_append_left _ (params.defaults_sublist.subset h)
  | named =>
    obtain rfl : c = _ := h
    simp [children]
  | comprehension mark kind element value generators =>
    obtain ⟨g, first, rfl⟩ := h
    refine List.mem_append_right _ (List.mem_flatMap.2 ⟨g, List.mem_of_mem_head? first, ?_⟩)
    simp [Generator.exprs]
  | _ => exact h

/-- At the end of a path through parts of expressions is something that is in the first one. -/
lemma mem_of_path {R : Expr → Expr → Prop} (sub : ∀ p c, R p c → c ∈ p.children)
    (path : Relation.ReflTransGen R e r) : r ∈ e.descendants := by
  induction path using Relation.ReflTransGen.head_induction_on with
  | refl => exact branching.mem_descendants.2 (.inl rfl)
  | @head p c step _ ih => exact branching.mem_descendants.2 (.inr ⟨c, sub p c step, ih⟩)

/-- Of two expressions, the second one is evaluated once whenever the first one is: it is the same, or
is reached from there by way of certain parts. -/
abbrev Surely (e r : Expr) : Prop := Relation.ReflTransGen Certain e r

lemma Surely.has (h : e.Surely r) : e.Has r.serial := ⟨r, mem_of_path (fun _ _ => Certain.child) h, rfl⟩

end Expr

namespace Runs

variable {front back : List Action} {trace : List Occurrence} {e r : Expr}

/-- Where the other steps have nothing with a number, its value comes as often as in the one step. -/
lemma count_eq {n : ℕ} (h : Runs (front ++ .evaluate e :: back) trace)
    (ahead : ∀ step ∈ front, ¬ step.Has n) (behind : ∀ step ∈ back, ¬ step.Has n) :
    ∃ inner, Runs [.evaluate e] inner ∧ trace.count (.evaluated n) = inner.count (.evaluated n) := by
  obtain ⟨t, rest, first, later, rfl⟩ := append_iff.1 h
  obtain ⟨inner, u, here, last, rfl⟩ := append_iff.1 (List.singleton_append ▸ later)
  refine ⟨inner, here, ?_⟩
  rw [List.count_append, List.count_append, List.count_eq_zero.2 (first.not_mem ahead),
    List.count_eq_zero.2 (last.not_mem behind), Nat.zero_add, Nat.add_zero]

end Runs

/-- What is sure to be evaluated with an expression is evaluated once. -/
theorem Expr.Surely.count_eq_one {e r : Expr} {trace : List Occurrence} (h : e.Surely r)
    (distinct : e.Distinct) (run : Runs [.evaluate e] trace) :
    trace.count (.evaluated r.serial) = 1 := by
  induction h using Relation.ReflTransGen.head_induction_on generalizing trace with
  | refl =>
    obtain ⟨ran, inner, course, parts, rfl⟩ := Runs.evaluate_iff.1 run
    have none : .evaluated r.serial ∉ inner := parts.not_mem <| List.forall_mem_map.2 fun c hc =>
      distinct.own c (course.subset hc)
    rw [List.count_append, List.count_eq_zero.2 none, List.count_singleton_self]
  | @head e c certain rest ih =>
    obtain ⟨ran, inner, course, parts, rfl⟩ := Runs.evaluate_iff.1 run
    have has : c.Has r.serial := Surely.has rest
    obtain ⟨front, back, rfl, ahead, behind⟩ := course.exists_certain certain distinct has
    rw [evaluations, List.map_append, List.map_cons] at parts
    obtain ⟨inner', here, same⟩ := parts.count_eq (List.forall_mem_map.2 ahead)
      (List.forall_mem_map.2 behind)
    have other : e.serial ≠ r.serial := fun same =>
      distinct.own c certain.child (same ▸ has)
    rw [List.count_append, same, ih (distinct.child c certain.child) here, List.count_singleton,
      if_neg (by simpa using other)]

/-! ## One behind another -/

/-- In an expression, nothing with the number `x` comes behind something with the number `y`: not in
the course of any expression, and not as the expression around it. -/
def Expr.Ordered (x y : ℕ) (e : Expr) : Prop :=
  ∀ p ∈ e.descendants, (p.serial = x → ∀ c ∈ p.children, ¬ c.Has y)
    ∧ ∀ ran, p.Course ran → ran.Pairwise fun a b => a.Has y → ¬ b.Has x

namespace Runs

variable {steps front back : List Action} {trace : List Occurrence} {x y n : ℕ}

/-- If nothing with one number comes behind something with another one in the steps and in any
expression, then its value never comes behind the other one's. -/
theorem neverBehind (h : Runs steps trace) (order : steps.Pairwise fun a b => a.Has y → ¬ b.Has x)
    (each : ∀ e, .evaluate e ∈ steps → e.Ordered x y) :
    NeverBehind (.evaluated x) (.evaluated y) trace := by
  induction h with
  | nil => exact .nil
  | act rest ih =>
    refine List.pairwise_cons.2 ⟨nofun, ih (List.pairwise_cons.1 order).2 fun e he => ?_⟩
    exact each e (List.mem_cons_of_mem _ he)
  | @evaluate e ran steps inner trace course parts rest ihParts ihRest =>
    obtain ⟨later, order⟩ := List.pairwise_cons.1 order
    have here := each e List.mem_cons_self
    obtain ⟨around, turns⟩ := here e (Expr.branching.mem_descendants.2 (.inl rfl))
    have inside {n : ℕ} (mem : .evaluated n ∈ inner) : ∃ c ∈ e.children, c.Has n := by
      obtain ⟨step, hs, has⟩ := parts.exists_has mem
      obtain ⟨c, hc, rfl⟩ := List.mem_map.1 hs
      exact ⟨c, course.subset hc, has⟩
    have behind (has : e.Has y) : .evaluated x ∉ trace := rest.not_mem fun step hs =>
      later step hs has
    refine List.pairwise_append.2 ⟨ihParts ?_ ?_, List.pairwise_cons.2 ⟨?_, ihRest order ?_⟩, ?_⟩
    · exact List.pairwise_map.2 (turns ran course)
    · intro c hc
      obtain ⟨c, mem, same⟩ := List.mem_map.1 hc
      obtain rfl := Action.evaluate.inj same
      exact fun p hp => here p (Expr.branching.mem_descendants.2 (.inr ⟨c, course.subset mem, hp⟩))
    · rintro b hb same rfl
      obtain rfl := Occurrence.evaluated.inj same
      exact behind e.has_self hb
    · exact fun e he => each e (List.mem_cons_of_mem _ he)
    · rintro a ha b hb rfl rfl
      obtain ⟨c, hc, has⟩ := inside ha
      rcases List.mem_cons.1 hb with same | hb
      · exact around (Occurrence.evaluated.inj same).symm c hc has
      · exact behind (.of_child hc has) hb

/-- What is evaluated in one step only, ahead of all acts, never gets its value behind an act. -/
theorem neverBehind_acted {e : Expr} (h : Runs (front ++ .evaluate e :: back) trace)
    (ahead : .act ∉ front) (behind : ∀ step ∈ back, ¬ step.Has n) :
    NeverBehind (.evaluated n) .acted trace := by
  have parts : front ++ .evaluate e :: back = (front ++ [.evaluate e]) ++ back := by simp
  obtain ⟨t, u, first, last, rfl⟩ := append_iff.1 (parts ▸ h)
  have noAct : .acted ∉ t := fun mem => by
    have act := first.acted_mem mem
    simp only [List.mem_append, List.mem_singleton, reduceCtorEq, or_false] at act
    exact ahead act
  refine List.pairwise_append.2 ⟨?_, ?_, ?_⟩
  · exact List.pairwise_of_forall_mem_list fun a ha _ _ same => absurd (same ▸ ha) noAct
  · exact List.pairwise_of_forall_mem_list fun _ _ b hb _ same =>
      last.not_mem behind (same ▸ hb)
  · exact fun a ha _ _ same => absurd (same ▸ ha) noAct

end Runs

end MethodLift.Syntax
