import MethodLift.Syntax.Tree

/-!
# What a node contains

The expressions directly inside an expression or a statement, and the statements directly inside a
statement, in the order of the text.  Whatever walks a tree without caring for the kinds of its
nodes does it through these lists; that a child is smaller than its parent is what ends such a walk.
-/

namespace MethodLift.Syntax

/-- The expressions in the headers of parameters. -/
def Parameters.exprs {ε : Type} (ps : Parameters ε) : List ε :=
  ps.params.flatMap fun p => p.annotation.toList ++ p.default.toList

/-- The expressions of the clause of a comprehension. -/
def Generator.exprs {ε : Type} (g : Generator ε) : List ε := g.target :: g.iter :: g.conditions

/-- The expressions of an entry of a dictionary. -/
def DictItem.exprs {ε : Type} (item : DictItem ε) : List ε := item.key.toList ++ [item.value]

/-- The parameters' names. -/
def Parameters.names {ε : Type} (ps : Parameters ε) : List Ident := ps.params.filterMap (·.name)

namespace Expr

/-- The expressions directly inside an expression. -/
def children : Expr → List Expr
  | name .. | constant .. | missing .. => []
  | fstring _ values | boolean _ _ values => values
  | attr _ value .. | starred _ value _ | await _ value | yieldFrom _ value => [value]
  | subscript _ value index _ => [value, index]
  | call _ func args => func :: args.map (·.value)
  | binary _ left _ right => [left, right]
  | unary _ _ operand => [operand]
  | compare _ left _ comparators => left :: comparators
  | lambda _ params body => params.exprs ++ [body]
  | conditional _ test body orelse => [body, test, orelse]
  | named _ target value => [target, value]
  | tuple _ elements .. | list _ elements _ | set _ elements => elements
  | dict _ items => items.flatMap (·.exprs)
  | comprehension _ _ element value generators =>
    element :: value.toList ++ generators.flatMap (·.exprs)
  | yield _ value => value.toList
  | slice _ lower upper step => lower.toList ++ upper.toList ++ step.toList

theorem sizeOf_lt_of_mem_option {e : Expr} {o : Option Expr} (h : e ∈ o.toList) :
    sizeOf e < sizeOf o := by
  cases o with
  | none => simp at h
  | some x =>
    obtain rfl : e = x := by simpa using h
    simp

theorem sizeOf_lt_of_mem_params {e : Expr} {ps : Parameters Expr} (h : e ∈ ps.exprs) :
    sizeOf e < sizeOf ps := by
  obtain ⟨p, hp, he⟩ := List.mem_flatMap.1 h
  have outer := List.sizeOf_lt_of_mem hp
  have inner : sizeOf e < sizeOf p := by
    rcases p with ⟨kind, name, annotation, default, span⟩
    rcases List.mem_append.1 he with he | he
    · have := sizeOf_lt_of_mem_option he
      simp only [Param.mk.sizeOf_spec] at *
      omega
    · have := sizeOf_lt_of_mem_option he
      simp only [Param.mk.sizeOf_spec] at *
      omega
  rcases ps with ⟨params, span⟩
  simp only [Parameters.mk.sizeOf_spec] at *
  omega

theorem sizeOf_lt_of_mem_generator {e : Expr} {g : Generator Expr} (h : e ∈ g.exprs) :
    sizeOf e < sizeOf g := by
  rcases g with ⟨target, iter, conditions, isAsync, span⟩
  simp only [Generator.exprs, List.mem_cons] at h
  simp only [Generator.mk.sizeOf_spec]
  rcases h with rfl | rfl | h
  · omega
  · omega
  · have := List.sizeOf_lt_of_mem h
    omega

theorem sizeOf_lt_of_mem_dictItem {e : Expr} {item : DictItem Expr} (h : e ∈ item.exprs) :
    sizeOf e < sizeOf item := by
  rcases item with ⟨key, value⟩
  simp only [DictItem.exprs, List.mem_append, List.mem_singleton] at h
  simp only [DictItem.mk.sizeOf_spec]
  rcases h with h | rfl
  · have := sizeOf_lt_of_mem_option h
    omega
  · omega

theorem sizeOf_lt_of_mem_args {e : Expr} {args : List (Arg Expr)} (h : e ∈ args.map (·.value)) :
    sizeOf e < sizeOf args := by
  obtain ⟨arg, ha, rfl⟩ := List.mem_map.1 h
  have outer := List.sizeOf_lt_of_mem ha
  rcases arg with ⟨kind, value, span⟩
  simp only [Arg.mk.sizeOf_spec] at *
  omega

/-- A child is smaller than its parent. -/
theorem sizeOf_lt_of_mem_children {c e : Expr} (h : c ∈ e.children) : sizeOf c < sizeOf e := by
  cases e with
  | name | constant | missing => simp [children] at h
  | fstring | boolean | tuple | list | set =>
    have := List.sizeOf_lt_of_mem h
    simp only [children] at this
    simp only [fstring.sizeOf_spec, boolean.sizeOf_spec, tuple.sizeOf_spec, list.sizeOf_spec,
      set.sizeOf_spec]
    omega
  | attr | starred | await | yieldFrom | unary =>
    obtain rfl := List.mem_singleton.1 h
    simp only [attr.sizeOf_spec, starred.sizeOf_spec, await.sizeOf_spec, yieldFrom.sizeOf_spec,
      unary.sizeOf_spec]
    omega
  | subscript | binary | conditional | named =>
    simp only [children, List.mem_cons, List.not_mem_nil, or_false] at h
    rcases h with rfl | rfl | rfl <;>
      simp only [subscript.sizeOf_spec, binary.sizeOf_spec, conditional.sizeOf_spec,
        named.sizeOf_spec] <;>
      omega
  | call mark func args =>
    rcases List.mem_cons.1 h with rfl | h
    · simp only [call.sizeOf_spec]
      omega
    · have := sizeOf_lt_of_mem_args h
      simp only [call.sizeOf_spec]
      omega
  | compare =>
    rcases List.mem_cons.1 h with rfl | h
    · simp only [compare.sizeOf_spec]
      omega
    · have := List.sizeOf_lt_of_mem h
      simp only [compare.sizeOf_spec]
      omega
  | lambda =>
    rcases List.mem_append.1 h with h | h
    · have := sizeOf_lt_of_mem_params h
      simp only [lambda.sizeOf_spec]
      omega
    · obtain rfl := List.mem_singleton.1 h
      simp only [lambda.sizeOf_spec]
      omega
  | dict mark items =>
    obtain ⟨item, hi, he⟩ := List.mem_flatMap.1 h
    have outer := List.sizeOf_lt_of_mem hi
    have inner := sizeOf_lt_of_mem_dictItem he
    simp only [dict.sizeOf_spec]
    omega
  | comprehension =>
    simp only [children, List.mem_append, List.mem_cons, List.mem_flatMap] at h
    rcases h with (rfl | h) | ⟨g, hg, he⟩
    · simp only [comprehension.sizeOf_spec]
      omega
    · have := sizeOf_lt_of_mem_option h
      simp only [comprehension.sizeOf_spec]
      omega
    · have outer := List.sizeOf_lt_of_mem hg
      have inner := sizeOf_lt_of_mem_generator he
      simp only [comprehension.sizeOf_spec]
      omega
  | yield =>
    have := sizeOf_lt_of_mem_option h
    simp only [yield.sizeOf_spec]
    omega
  | slice =>
    simp only [children, List.mem_append] at h
    rcases h with (h | h) | h <;>
      have := sizeOf_lt_of_mem_option h <;>
      simp only [slice.sizeOf_spec] <;>
      omega

/-- The expression and everything inside it, each node before what it contains. -/
def descendants (e : Expr) : List Expr :=
  e :: e.children.attach.flatMap fun c => descendants c.1
termination_by sizeOf e
decreasing_by exact sizeOf_lt_of_mem_children c.2

theorem descendants_eq (e : Expr) : e.descendants = e :: e.children.flatMap descendants := by
  rw [descendants]
  congr 1
  conv => rhs; rw [← List.attach_map_subtype_val e.children, List.flatMap_map]

end Expr

namespace Stmt

/-- The expressions that belong to a statement itself, not to the statements inside it. -/
def exprs : Stmt → List Expr
  | functionDef d => d.decorators ++ d.params.exprs ++ d.returns.toList
  | classDef d => d.decorators ++ d.bases.map (·.value)
  | ret _ value => value.toList
  | delete _ targets => targets
  | assign _ targets value => targets ++ [value]
  | augAssign _ target _ value => [target, value]
  | annAssign _ target annotation value => target :: annotation :: value.toList
  | forLoop _ _ target iter _ _ => [target, iter]
  | whileLoop _ test _ _ | ifElse _ _ test _ _ => [test]
  | withBlock _ _ items _ => items.flatMap fun item => item.context :: item.target.toList
  | tryBlock _ _ handlers _ _ => handlers.flatMap (·.type.toList)
  | raise _ exc cause => exc.toList ++ cause.toList
  | assert _ test message => test :: message.toList
  | expr _ value => [value]
  | importModules .. | importFrom .. | global .. | nonlocal .. | pass _ | breakLoop _
  | continueLoop _ | error _ => []

/-- The statements in the bodies of a statement. -/
def children : Stmt → List Stmt
  | functionDef d => d.body
  | classDef d => d.body
  | forLoop _ _ _ _ body orelse | whileLoop _ _ body orelse | ifElse _ _ _ body orelse =>
    body ++ orelse
  | withBlock _ _ _ body => body
  | tryBlock _ body handlers orelse finalbody =>
    body ++ handlers.flatMap (·.body) ++ orelse ++ finalbody
  | _ => []

/-- A statement is larger than the statements in it. -/
theorem sizeOf_lt_of_mem_children {c s : Stmt} (h : c ∈ s.children) : sizeOf c < sizeOf s := by
  cases s with
  | functionDef d =>
    have := List.sizeOf_lt_of_mem h
    rcases d with ⟨mark, name, decorators, params, returns, body, isAsync⟩
    simp_all [children]
    omega
  | classDef d =>
    have := List.sizeOf_lt_of_mem h
    rcases d with ⟨mark, name, decorators, bases, body⟩
    simp_all [children]
    omega
  | forLoop | whileLoop | ifElse =>
    rcases List.mem_append.1 h with h | h <;>
      have := List.sizeOf_lt_of_mem h <;>
      simp only [forLoop.sizeOf_spec, whileLoop.sizeOf_spec, ifElse.sizeOf_spec] <;>
      omega
  | withBlock =>
    have := List.sizeOf_lt_of_mem h
    simp only [children] at this
    simp only [withBlock.sizeOf_spec]
    omega
  | tryBlock mark body handlers orelse finalbody =>
    simp only [children, List.mem_append, List.mem_flatMap] at h
    rcases h with ((h | ⟨handler, hh, h⟩) | h) | h
    · have := List.sizeOf_lt_of_mem h
      simp only [tryBlock.sizeOf_spec]
      omega
    · have outer := List.sizeOf_lt_of_mem hh
      have inner := List.sizeOf_lt_of_mem h
      rcases handler with ⟨type, name, body, span⟩
      simp_all
      omega
    · have := List.sizeOf_lt_of_mem h
      simp only [tryBlock.sizeOf_spec]
      omega
    · have := List.sizeOf_lt_of_mem h
      simp only [tryBlock.sizeOf_spec]
      omega
  | _ => simp [children] at h

/-- The statement and every statement inside it, each before what it contains. -/
def descendants (s : Stmt) : List Stmt :=
  s :: s.children.attach.flatMap fun c => descendants c.1
termination_by sizeOf s
decreasing_by exact sizeOf_lt_of_mem_children c.2

theorem descendants_eq (s : Stmt) : s.descendants = s :: s.children.flatMap descendants := by
  rw [descendants]
  congr 1
  conv => rhs; rw [← List.attach_map_subtype_val s.children, List.flatMap_map]

end Stmt

end MethodLift.Syntax
