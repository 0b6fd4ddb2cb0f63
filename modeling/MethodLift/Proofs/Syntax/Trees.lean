import MethodLift.Proofs.Syntax.Tokens
import MethodLift.Syntax.Module

/-!
# Trees that stand in a text

A tree stands in a text if every node of it does: its span and those of its parts that are no nodes
(arguments, parameters, clauses, aliases, handlers) run forwards between two cuts, and the names
that it writes down are written there.

A property of every node is `Everywhere`, an inductive predicate over the children of a node, so
that statements about all nodes go by its induction and a node's own kind matters only in its own
parts.

One fact about calls is kept beside the spans.  New arguments of a call that has none are put one
byte before the end of the call, and that has to be a place to cut at: `Expr.closing`.
-/

namespace MethodLift.Syntax

open Text (Boundary)

/-! ## Short lists -/

lemma forall_mem_toList {α : Type} {P : α → Prop} {o : Option α} (h : ∀ a ∈ o, P a) :
    ∀ a ∈ o.toList, P a := fun a ha => h a (Option.mem_toList.1 ha)

lemma forall_mem_pair {α : Type} {P : α → Prop} {a b : α} (ha : P a) (hb : P b) :
    ∀ c ∈ [a, b], P c := List.forall_mem_cons.2 ⟨ha, List.forall_mem_singleton.2 hb⟩

/-! ## Every node -/

namespace Expr

/-- A property of an expression and of everything inside it. -/
inductive Everywhere (P : Expr → Prop) : Expr → Prop
  | node {e : Expr} (here : P e) (inside : ∀ c ∈ e.children, Everywhere P c) : Everywhere P e

variable {P : Expr → Prop} {e d : Expr}

lemma Everywhere.here (h : Everywhere P e) : P e := by
  cases h with
  | node here _ => exact here

lemma Everywhere.child (h : Everywhere P e) (hd : d ∈ e.children) : Everywhere P d := by
  cases h with
  | node _ inside => exact inside d hd

theorem Everywhere.descendant (h : Everywhere P e) (hd : d ∈ e.descendants) : Everywhere P d := by
  induction h with
  | @node e here inside ih =>
    rw [descendants_eq, List.mem_cons, List.mem_flatMap] at hd
    rcases hd with rfl | ⟨c, hc, hd⟩
    · exact .node here inside
    · exact ih c hc hd

end Expr

namespace Stmt

/-- A property of a statement and of every statement in it. -/
inductive Everywhere (P : Stmt → Prop) : Stmt → Prop
  | node {s : Stmt} (here : P s) (inside : ∀ c ∈ s.children, Everywhere P c) : Everywhere P s

variable {P : Stmt → Prop} {s d : Stmt}

lemma Everywhere.here (h : Everywhere P s) : P s := by
  cases h with
  | node here _ => exact here

lemma Everywhere.child (h : Everywhere P s) (hd : d ∈ s.children) : Everywhere P d := by
  cases h with
  | node _ inside => exact inside d hd

theorem Everywhere.descendant (h : Everywhere P s) (hd : d ∈ s.descendants) : Everywhere P d := by
  induction h with
  | @node s here inside ih =>
    rw [descendants_eq, List.mem_cons, List.mem_flatMap] at hd
    rcases hd with rfl | ⟨c, hc, hd⟩
    · exact .node here inside
    · exact ih c hc hd

end Stmt

/-! ## Parts of nodes -/

/-- A name stands in the text where it says; a name that stands in for a missing one is empty. -/
structure Ident.Placed (source : List Char) (i : Ident) : Prop where
  span : Text.Placed source i.span
  text : i.name = "" ∨ Text.slice source i.span = i.name.toList

/-- The name of an argument that is passed by name. -/
def ArgKind.ident? : ArgKind → Option Ident
  | keyword name => some name
  | _ => none

namespace Expr

/-- The spans of the parts of an expression that are no expressions. -/
def partSpans : Expr → List Span
  | call _ _ args => args.map (·.span)
  | lambda _ params _ => params.span :: params.params.map (·.span)
  | comprehension _ _ _ _ generators => generators.map (·.span)
  | _ => []

/-- The names that an expression writes down and that are no expressions. -/
def idents : Expr → List Ident
  | attr _ _ ident _ => [ident]
  | call _ _ args => args.filterMap (·.kind.ident?)
  | lambda _ params _ => params.names
  | _ => []

/-- A call without arguments. -/
def isBareCall : Expr → Bool
  | call _ _ [] => true
  | _ => false

/-- What an expression consists of stands in the text, apart from its own span and from what the
expressions in it consist of. -/
structure NodePlaced (source : List Char) (e : Expr) : Prop where
  span : Text.Placed source e.span
  parts : ∀ s ∈ e.partSpans, Text.Placed source s
  idents : ∀ i ∈ e.idents, i.Placed source
  closing : e.isBareCall = true → Boundary source (e.span.stop - 1)

/-- An expression that stands in the text with everything inside it. -/
def Placed (source : List Char) (e : Expr) : Prop := e.Everywhere (NodePlaced source)

/-- All that stands in the text for an expression to do so, but for its own span. -/
structure Inside (source : List Char) (e : Expr) : Prop where
  parts : ∀ s ∈ e.partSpans, Text.Placed source s
  idents : ∀ i ∈ e.idents, i.Placed source
  children : ∀ c ∈ e.children, c.Placed source

variable {source : List Char} {e : Expr}

lemma Placed.inside (h : e.Placed source) : e.Inside source :=
  ⟨h.here.parts, h.here.idents, fun _ hc => h.child hc⟩

lemma Placed.span (h : e.Placed source) : Text.Placed source e.span := h.here.span

lemma Inside.placed (h : e.Inside source) (span : Text.Placed source e.span)
    (closing : e.isBareCall = true → Boundary source (e.span.stop - 1)) : e.Placed source :=
  .node ⟨span, h.parts, h.idents, closing⟩ h.children

/-- An expression that consists of expressions only. -/
lemma Inside.of_children (parts : e.partSpans = []) (idents : e.idents = [])
    (children : ∀ c ∈ e.children, c.Placed source) : e.Inside source := by
  refine ⟨?_, ?_, children⟩
  · rw [parts]
    nofun
  · rw [idents]
    nofun

end Expr

/-- An argument stands in the text. -/
structure Arg.Placed (source : List Char) (a : Arg Expr) : Prop where
  span : Text.Placed source a.span
  ident : ∀ i ∈ a.kind.ident?, i.Placed source
  value : a.value.Placed source

/-- A parameter stands in the text. -/
structure Param.Placed (source : List Char) (p : Param Expr) : Prop where
  span : Text.Placed source p.span
  ident : ∀ i ∈ p.name, i.Placed source
  annotated : ∀ e ∈ p.annotation, e.Placed source
  default : ∀ e ∈ p.default, e.Placed source

/-- A parameter list stands in the text. -/
structure Parameters.Placed (source : List Char) (ps : Parameters Expr) : Prop where
  span : Text.Placed source ps.span
  each : ∀ p ∈ ps.params, p.Placed source

/-- The clause of a comprehension stands in the text. -/
structure Generator.Placed (source : List Char) (g : Generator Expr) : Prop where
  span : Text.Placed source g.span
  exprs : ∀ e ∈ g.exprs, e.Placed source

variable {source : List Char}

lemma Parameters.Placed.exprs {ps : Parameters Expr} (h : ps.Placed source) :
    ∀ e ∈ ps.exprs, e.Placed source := by
  intro e he
  obtain ⟨p, hp, he⟩ := List.mem_flatMap.1 he
  rcases List.mem_append.1 he with he | he
  · exact forall_mem_toList (h.each p hp).annotated e he
  · exact forall_mem_toList (h.each p hp).default e he

lemma Parameters.Placed.names {ps : Parameters Expr} (h : ps.Placed source) :
    ∀ i ∈ ps.names, i.Placed source := by
  intro i hi
  obtain ⟨p, hp, name⟩ := List.mem_filterMap.1 hi
  exact (h.each p hp).ident i name

lemma Parameters.Placed.spans {ps : Parameters Expr} (h : ps.Placed source) :
    ∀ s ∈ ps.span :: ps.params.map (·.span), Text.Placed source s := by
  refine List.forall_mem_cons.2 ⟨h.span, ?_⟩
  intro s hs
  obtain ⟨p, hp, rfl⟩ := List.mem_map.1 hs
  exact (h.each p hp).span

namespace Expr

lemma Inside.attr {m : Mark} {value : Expr} {name : Ident} {ctx : Context}
    (hv : value.Placed source) (hn : name.Placed source) : Inside source (.attr m value name ctx) :=
  ⟨nofun, List.forall_mem_singleton.2 hn, List.forall_mem_singleton.2 hv⟩

lemma Inside.call {m : Mark} {func : Expr} {args : List (Arg Expr)} (hf : func.Placed source)
    (ha : ∀ a ∈ args, a.Placed source) : Inside source (.call m func args) := by
  refine ⟨?_, ?_, List.forall_mem_cons.2 ⟨hf, ?_⟩⟩
  · intro s hs
    obtain ⟨a, h, rfl⟩ := List.mem_map.1 hs
    exact (ha a h).span
  · intro i hi
    obtain ⟨a, h, name⟩ := List.mem_filterMap.1 hi
    exact (ha a h).ident i name
  · intro c hc
    obtain ⟨a, h, rfl⟩ := List.mem_map.1 hc
    exact (ha a h).value

lemma Inside.lambda {m : Mark} {params : Parameters Expr} {body : Expr}
    (hp : params.Placed source) (hb : body.Placed source) :
    Inside source (.lambda m params body) := by
  refine ⟨hp.spans, hp.names, ?_⟩
  intro c hc
  rcases List.mem_append.1 hc with hc | hc
  · exact hp.exprs c hc
  · obtain rfl := List.mem_singleton.1 hc
    exact hb

lemma Inside.comprehension {m : Mark} {kind : ComprehensionKind} {element : Expr}
    {value : Option Expr} {generators : List (Generator Expr)} (he : element.Placed source)
    (hv : ∀ e ∈ value, e.Placed source) (hg : ∀ g ∈ generators, g.Placed source) :
    Inside source (.comprehension m kind element value generators) := by
  refine ⟨?_, nofun, List.forall_mem_cons.2 ⟨he, ?_⟩⟩
  · intro s hs
    obtain ⟨g, h, rfl⟩ := List.mem_map.1 hs
    exact (hg g h).span
  · intro c hc
    rcases List.mem_append.1 hc with hc | hc
    · exact forall_mem_toList hv c hc
    · obtain ⟨g, h, hc⟩ := List.mem_flatMap.1 hc
      exact (hg g h).exprs c hc

/-! ## Other marks and contexts -/

@[simp] lemma mark_withMark (m : Mark) (e : Expr) : (e.withMark m).mark = m := by
  cases e <;> rfl

@[simp] lemma children_withMark (m : Mark) (e : Expr) : (e.withMark m).children = e.children := by
  cases e <;> rfl

@[simp] lemma partSpans_withMark (m : Mark) (e : Expr) :
    (e.withMark m).partSpans = e.partSpans := by
  cases e <;> rfl

@[simp] lemma idents_withMark (m : Mark) (e : Expr) : (e.withMark m).idents = e.idents := by
  cases e <;> rfl

@[simp] lemma isBareCall_withMark (m : Mark) (e : Expr) :
    (e.withMark m).isBareCall = e.isBareCall := by
  cases e with
  | call _ _ args => cases args <;> rfl
  | _ => rfl

@[simp] lemma span_withSpan (s : Span) (e : Expr) : (e.withSpan s).span = s := by
  simp [withSpan, span]

@[simp] lemma isBareCall_withSpan (s : Span) (e : Expr) :
    (e.withSpan s).isBareCall = e.isBareCall := isBareCall_withMark _ e

lemma Placed.inside_withSpan {e : Expr} (h : e.Placed source) (s : Span) :
    (e.withSpan s).Inside source := by
  have inside := h.inside
  exact ⟨by simpa [withSpan] using inside.parts, by simpa [withSpan] using inside.idents,
    by simpa [withSpan] using inside.children⟩

@[simp] lemma span_retarget (ctx : Context) (e : Expr) : (e.retarget ctx).span = e.span := by
  cases e <;> (unfold retarget; rfl)

/-- Elements that became targets, if each of them stands in the text. -/
lemma placed_map_retarget {ctx : Context} {elements : List Expr}
    (ih : ∀ e ∈ elements, e.Placed source → (e.retarget ctx).Placed source)
    (h : ∀ e ∈ elements, e.Placed source) :
    ∀ c ∈ elements.map fun e => e.retarget ctx, c.Placed source := by
  intro c hc
  obtain ⟨e, he, rfl⟩ := List.mem_map.1 hc
  exact ih e he (h e he)

/-- A target stands where the expression stood. -/
theorem Placed.retarget {ctx : Context} {e : Expr} (h : e.Placed source) :
    (e.retarget ctx).Placed source := by
  fun_induction Expr.retarget ctx e with
  | case1 m id _ =>
    have inside : Inside source (.name m id ctx) := .of_children rfl rfl (by nofun)
    exact inside.placed h.span nofun
  | case2 m value ident _ =>
    have value := h.child (List.mem_singleton.2 rfl)
    exact (Inside.attr value (h.here.idents _ (List.mem_singleton.2 rfl))).placed h.span nofun
  | case3 m value index _ =>
    have inside : Inside source (.subscript m value index ctx) :=
      .of_children rfl rfl fun c hc => h.child hc
    exact inside.placed h.span nofun
  | case4 m value _ ih =>
    have inner := ih (h.child (List.mem_singleton.2 rfl))
    have inside : Inside source (.starred m (value.retarget ctx) ctx) :=
      .of_children rfl rfl (List.forall_mem_singleton.2 inner)
    exact inside.placed h.span nofun
  | case5 m elements _ parenthesized ih =>
    have inner := placed_map_retarget ih fun e he => h.child he
    have inside : Inside source
        (.tuple m (elements.map fun e => e.retarget ctx) ctx parenthesized) :=
      .of_children rfl rfl inner
    exact inside.placed h.span nofun
  | case6 m elements _ ih =>
    have inner := placed_map_retarget ih fun e he => h.child he
    have inside : Inside source (.list m (elements.map fun e => e.retarget ctx) ctx) :=
      .of_children rfl rfl inner
    exact inside.placed h.span nofun
  | case7 e => exact h

/-- Where an expression is no target is a place in the text. -/
theorem Placed.untargetable {e : Expr} (h : e.Placed source) :
    ∀ s ∈ e.untargetable, Text.Placed source s := by
  fun_induction Expr.untargetable e with
  | case1 | case2 | case3 | case4 => nofun
  | case5 m value _ ih => exact ih (h.child (List.mem_singleton.2 rfl))
  | case6 m elements _ _ ih | case7 m elements _ ih =>
    intro s hs
    obtain ⟨e, he, hs⟩ := List.mem_flatMap.1 hs
    exact ih e he (h.child he) s hs
  | case8 e => exact List.forall_mem_singleton.2 h.span

end Expr

/-! ## Statements -/

/-- An `except` clause stands in the text, apart from the statements in it. -/
structure Handler.Placed (source : List Char) (h : Handler Stmt) : Prop where
  span : Text.Placed source h.span
  ident : ∀ i ∈ h.name, i.Placed source
  type : ∀ e ∈ h.type, e.Placed source

/-- An imported name stands in the text. -/
structure Alias.Placed (source : List Char) (a : Alias) : Prop where
  span : Text.Placed source a.span
  ident : ∀ i ∈ a.asname, i.Placed source

namespace Stmt

/-- The spans of the parts of a statement that are no nodes. -/
def partSpans : Stmt → List Span
  | functionDef d => d.params.span :: d.params.params.map (·.span)
  | classDef d => d.bases.map (·.span)
  | tryBlock _ _ handlers _ _ => handlers.map (·.span)
  | importModules _ names | importFrom _ _ _ names _ => names.map (·.span)
  | _ => []

/-- The names that a statement writes down and that are no expressions. -/
def idents : Stmt → List Ident
  | functionDef d => d.name :: d.params.names
  | classDef d => d.name :: d.bases.filterMap (·.kind.ident?)
  | tryBlock _ _ handlers _ _ => handlers.filterMap (·.name)
  | importModules _ names | importFrom _ _ _ names _ => names.filterMap (·.asname)
  | global _ names | nonlocal _ names => names
  | _ => []

/-- What a statement consists of stands in the text, apart from its own span and from the statements
in it. -/
structure Inside (source : List Char) (s : Stmt) : Prop where
  parts : ∀ p ∈ s.partSpans, Text.Placed source p
  idents : ∀ i ∈ s.idents, i.Placed source
  exprs : ∀ e ∈ s.exprs, e.Placed source

/-- What a statement consists of stands in the text, apart from the statements in it. -/
structure NodePlaced (source : List Char) (s : Stmt) : Prop extends Inside source s where
  span : Text.Placed source s.span

/-- A statement that stands in the text with everything inside it. -/
def Placed (source : List Char) (s : Stmt) : Prop := s.Everywhere (NodePlaced source)

/-- A statement that consists of expressions and statements only. -/
lemma Inside.of_exprs {s : Stmt} (parts : s.partSpans = []) (idents : s.idents = [])
    (exprs : ∀ e ∈ s.exprs, e.Placed source) : s.Inside source := by
  refine ⟨?_, ?_, exprs⟩
  · rw [parts]
    nofun
  · rw [idents]
    nofun

end Stmt

/-- The text of a module is read as a tree that stands in it, and so do the expressions that the
tree does not use. -/
structure Module.Placed (source : List Char) (m : Module) : Prop where
  body : ∀ s ∈ m.body, s.Placed source
  unused : ∀ e ∈ m.unused, e.Placed source

lemma Module.Placed.stmts {m : Module} (h : m.Placed source) :
    ∀ stmt ∈ m.reachableStmts, stmt.Placed source := by
  intro stmt hs
  obtain ⟨top, ht, hs⟩ := List.mem_flatMap.1 hs
  exact (h.body top ht).descendant hs

end MethodLift.Syntax
