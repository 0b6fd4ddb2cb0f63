import MethodLift.Scope.Names

/-!
# What happens to names in a function

Walking through a function in the order in which its parts are evaluated gives a list of events:
scopes that open, names that are bound or declared in them, and references to names.  A reference
carries the chain of scopes that it is evaluated in, so that what it means can be decided
afterwards, when everything that the scopes bind is known.

Bodies of functions, lambdas, comprehensions and classes open scopes.  Their headers (decorators,
defaults, annotations, bases, the first iterable of a comprehension) belong to the scope around.  An
assignment expression binds in the nearest scope that is no comprehension.
-/

namespace MethodLift.Scope

open MethodLift.Syntax

inductive ScopeKind
  /-- The function that is walked through. -/
  | method
  | function
  | lambda
  | comprehension
  | class_
deriving DecidableEq, Repr, Inhabited

/-- Which scope: the one of a statement or of an expression, by its serial number. -/
inductive ScopeKey
  | stmt (serial : Nat)
  | expr (serial : Nat)
deriving DecidableEq, Repr, Inhabited

/-- A scope in a chain.  Scopes around the function that is walked through are not its own. -/
structure ScopeLink where
  key : ScopeKey
  kind : ScopeKind
  own : Bool
deriving DecidableEq, Repr, Inhabited

/-- Where something is evaluated: the scopes around it, the innermost first, and the scope whose
report mentions it. -/
structure Frame where
  chain : List ScopeLink
  report : ScopeKey
deriving Repr, Inhabited

/-- What a report is about. -/
structure ScopeOwner where
  kind : ScopeKind
  name : String
  span : Span
deriving DecidableEq, Repr, Inhabited

/-- What the expression around an expression does with it. -/
inductive Use
  /-- Nothing that matters here. -/
  | plain
  /-- Calls it, with arguments or without. -/
  | callee (bare : Bool)
  /-- Takes an attribute of it; `called` tells whether that is called in turn. -/
  | object (member : Ident) (ctx : Context) (access : Span) (called : Bool)
deriving DecidableEq, Repr, Inhabited

/-- A mention of a name. -/
structure Reference where
  name : String
  span : Span
  ctx : Context
  frame : Frame
  use : Use
deriving Repr, Inhabited

/-- A step of the walk that matters for names. -/
inductive Event
  | opened (key : ScopeKey) (owner : ScopeOwner)
  | bound (key : ScopeKey) (name : String)
  | declaredGlobal (key : ScopeKey) (name : String)
  | declaredNonlocal (key : ScopeKey) (name : String)
  | referenced (r : Reference)
deriving Repr, Inhabited

namespace Frame

/-- The key of the innermost scope. -/
def key (f : Frame) : ScopeKey := (f.chain.head?.map (·.key)).getD f.report

/-- The frame inside a scope that opens here; its report is its own. -/
def enter (f : Frame) (key : ScopeKey) (kind : ScopeKind) : Frame :=
  ⟨⟨key, kind, true⟩ :: f.chain, key⟩

/-- The chain without the comprehensions at its front; one that has nothing around stays. -/
def withoutComprehensions : List ScopeLink → List ScopeLink
  | link :: next :: rest =>
    if link.kind == .comprehension then withoutComprehensions (next :: rest)
    else link :: next :: rest
  | chain => chain

/-- Where an assignment expression binds. -/
def forWalrus (f : Frame) : Frame :=
  let chain := withoutComprehensions f.chain
  match chain with
  | link :: _ => ⟨chain, if link.own then link.key else f.report⟩
  | [] => f

/-- Binds a name in the innermost scope. -/
def bind (f : Frame) (name : String) : Event := .bound f.key name

/-- Binds a name in the innermost scope and mentions it. -/
def store (f : Frame) (name : String) (span : Span) : List Event :=
  [f.bind name, .referenced ⟨name, span, .store, f, .plain⟩]

end Frame

/-- How a comprehension is called in reports. -/
def comprehensionLabel : ComprehensionKind → String
  | .list => "<listcomp>"
  | .set => "<setcomp>"
  | .dict => "<dictcomp>"
  | .generator => "<genexpr>"

/-- The use of each child of an expression that opens no scope, with the child. -/
def usedChildren (use : Use) (e : Expr) : List (Use × Expr) :=
  match e with
  | .attr m value member ctx =>
    [(.object member ctx m.span (match use with | .callee _ => true | _ => false), value)]
  | .call _ func args =>
    (.callee args.isEmpty, func) :: args.map fun arg => (.plain, arg.value)
  | other => other.children.map fun c => (.plain, c)

theorem mem_children_of_mem_usedChildren {use : Use} {e : Expr} {p : Use × Expr}
    (h : p ∈ usedChildren use e) : p.2 ∈ e.children := by
  unfold usedChildren at h
  split at h
  · simp_all [Expr.children]
  · simp only [List.mem_cons, List.mem_map] at h
    rcases h with rfl | ⟨arg, ha, rfl⟩
    · simp [Expr.children]
    · simp only [Expr.children, List.mem_cons, List.mem_map]
      exact Or.inr ⟨arg, ha, rfl⟩
  · obtain ⟨c, hc, rfl⟩ := List.mem_map.1 h
    exact hc

/-- The defaults in a parameter list. -/
def defaults (ps : Parameters Expr) : List Expr := ps.params.flatMap (·.default.toList)

theorem mem_exprs_of_mem_defaults {ps : Parameters Expr} {e : Expr} (h : e ∈ defaults ps) :
    e ∈ ps.exprs := by
  obtain ⟨p, hp, he⟩ := List.mem_flatMap.1 h
  exact List.mem_flatMap.2 ⟨p, hp, List.mem_append_right _ he⟩

/-- The parts of a comprehension that are evaluated in its own scope: of the first clause all but
the iterable, then the other clauses, then what is collected. -/
def comprehensionParts (element : Expr) (value : Option Expr) :
    List (Generator Expr) → List Expr
  | [] => element :: value.toList
  | g :: gs =>
    g.target :: g.conditions ++ gs.flatMap (·.exprs) ++ element :: value.toList

/-- The iterable of the first clause of a comprehension. -/
def firstIterable (generators : List (Generator Expr)) : List Expr :=
  (generators.head?.map (·.iter)).toList

theorem mem_children_of_mem_comprehensionParts {m : Mark} {kind : ComprehensionKind}
    {element : Expr} {value : Option Expr} {gs : List (Generator Expr)} {e : Expr}
    (h : e ∈ comprehensionParts element value gs) :
    e ∈ (Expr.comprehension m kind element value gs).children := by
  cases gs with
  | nil => simpa [Expr.children, comprehensionParts] using h
  | cons g gs =>
    simp only [comprehensionParts, Expr.children, Generator.exprs, List.mem_append, List.mem_cons,
      List.flatMap_cons] at *
    grind

theorem mem_children_of_mem_firstIterable {m : Mark} {kind : ComprehensionKind}
    {element : Expr} {value : Option Expr} {gs : List (Generator Expr)} {e : Expr}
    (h : e ∈ firstIterable gs) :
    e ∈ (Expr.comprehension m kind element value gs).children := by
  cases gs with
  | nil => simp [firstIterable] at h
  | cons g gs => simp_all [firstIterable, Expr.children, Generator.exprs]

/-- The events of an expression. -/
def traceExpr (frame : Frame) (use : Use) (e : Expr) : List Event :=
  match e with
  | .name m id ctx =>
    (if ctx == .load then [] else [frame.bind id])
      ++ [.referenced ⟨id, m.span, ctx, frame, use⟩]
  | .named _ target value =>
    traceExpr frame .plain value ++
      match target with
      | .name m id _ => frame.forWalrus.store id m.span
      | other => traceExpr frame .plain other
  | .lambda m params body =>
    let key : ScopeKey := .expr m.serial
    let inner := frame.enter key .lambda
    (defaults params).attach.flatMap (fun d => traceExpr frame .plain d.1)
      ++ .opened key ⟨.lambda, "<lambda>", m.span⟩
      :: params.names.map (fun ident => inner.bind ident.name)
      ++ traceExpr inner .plain body
  | .comprehension m kind element value generators =>
    let key : ScopeKey := .expr m.serial
    let inner := frame.enter key .comprehension
    (firstIterable generators).attach.flatMap (fun c => traceExpr frame .plain c.1)
      ++ .opened key ⟨.comprehension, comprehensionLabel kind, m.span⟩
      :: (comprehensionParts element value generators).attach.flatMap
        fun c => traceExpr inner .plain c.1
  | other => (usedChildren use other).attach.flatMap fun c => traceExpr frame c.1.1 c.1.2
termination_by sizeOf e
decreasing_by
  · simp only [Expr.named.sizeOf_spec]
    omega
  · simp only [Expr.named.sizeOf_spec]
    omega
  · have := Expr.sizeOf_lt_of_mem_params (mem_exprs_of_mem_defaults d.2)
    simp only [Expr.lambda.sizeOf_spec]
    omega
  · simp only [Expr.lambda.sizeOf_spec]
    omega
  · exact Expr.sizeOf_lt_of_mem_children (mem_children_of_mem_firstIterable c.2)
  · exact Expr.sizeOf_lt_of_mem_children (mem_children_of_mem_comprehensionParts c.2)
  · exact Expr.sizeOf_lt_of_mem_children (mem_children_of_mem_usedChildren c.2)

/-- The events of a function: its scope opens, its header is evaluated around it, its parameters are
bound, and its body runs.  A header that nothing is around is left out. -/
def traceFunction (d : FunctionDef Stmt) (kind : ScopeKind) (around : List ScopeLink)
    (headerReport? : Option ScopeKey) (body : Frame → List Event) : List Event :=
  let key : ScopeKey := .stmt d.mark.serial
  let header : Frame := ⟨around, headerReport?.getD key⟩
  let inner := header.enter key kind
  .opened key ⟨kind, d.name.name, d.mark.span⟩
    :: (if around.isEmpty then [] else
      (Stmt.functionDef d).exprs.flatMap (traceExpr header .plain))
    ++ d.params.names.map (fun ident => inner.bind ident.name)
    ++ body inner

/-- What a statement does to names besides its expressions and its bodies. -/
def traceOwn (frame : Frame) : Stmt → List Event
  | .importModules _ names | .importFrom _ _ _ names _ =>
    names.flatMap fun a => frame.store a.boundName ((a.asname.map (·.span)).getD a.span)
  | .global _ names => names.map fun ident => .declaredGlobal frame.key ident.name
  | .nonlocal _ names => names.map fun ident => .declaredNonlocal frame.key ident.name
  | .tryBlock _ _ handlers _ _ =>
    handlers.flatMap fun h => h.name.toList.flatMap fun ident => frame.store ident.name ident.span
  | _ => []

/-- The events of a statement. -/
def traceStmt (frame : Frame) (s : Stmt) : List Event :=
  match s with
  | .functionDef d =>
    frame.store d.name.name d.name.span
      ++ traceFunction d .function frame.chain (some frame.report)
        fun inner => d.body.attach.flatMap fun c => traceStmt inner c.1
  | .classDef d =>
    let key : ScopeKey := .stmt d.mark.serial
    let inner := frame.enter key .class_
    (Stmt.classDef d).exprs.flatMap (traceExpr frame .plain)
      ++ frame.store d.name.name d.name.span
      ++ .opened key ⟨.class_, d.name.name, d.mark.span⟩
      :: d.body.attach.flatMap fun c => traceStmt inner c.1
  | other =>
    traceOwn frame other ++ other.exprs.flatMap (traceExpr frame .plain)
      ++ other.children.attach.flatMap fun c => traceStmt frame c.1
termination_by sizeOf s
decreasing_by
  · exact Stmt.sizeOf_lt_of_mem_children (s := .functionDef d) c.2
  · exact Stmt.sizeOf_lt_of_mem_children (s := .classDef d) c.2
  · exact Stmt.sizeOf_lt_of_mem_children c.2

end MethodLift.Scope
