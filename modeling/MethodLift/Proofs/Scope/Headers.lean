import MethodLift.Proofs.Scope.Frames
import MethodLift.Proofs.Syntax.Targets

/-!
# Headers

What stands in the header of a function or a class, or in the default of a lambda, is evaluated
around the scope that opens there.  An assignment expression in it binds around that scope, however
deep in comprehensions it is.  The headers of a statement (`Stmt.headers`) are the expressions in
which that happens.

The walk through an expression binds, in the scope of a statement, what the collector finds there
(`boundByExpr`) and what is bound in headers (`mem_traceExpr`).  The frame of the walk is then
directly in the scope or nested in it by comprehensions (`Frame.StandsIn`).
-/

namespace MethodLift.Syntax

open Scope (defaults mem_exprs_of_mem_defaults)

/-! ## Headers -/

/-- The defaults of the lambdas in an expression.  What is in the body of a lambda belongs to the
lambda. -/
def Expr.headers (e : Expr) : List Expr :=
  match e with
  | .lambda _ params _ => defaults params ++ (defaults params).attach.flatMap fun c => headers c.1
  | other => other.children.attach.flatMap fun c => headers c.1
termination_by sizeOf e
decreasing_by
  · have := sizeOf_lt_of_mem_params (mem_exprs_of_mem_defaults c.2)
    simp only [Expr.lambda.sizeOf_spec]
    omega
  · exact Expr.sizeOf_lt_of_mem_children c.2

/-- The expressions of a statement that are evaluated around a scope which opens in it: the headers
of functions and classes, with the defaults of the lambdas in them, and other defaults of lambdas.
What is in the bodies of functions and classes belongs to these. -/
def Stmt.headers (s : Stmt) : List Expr :=
  match s with
  | .functionDef d =>
    (Stmt.functionDef d).exprs ++ (Stmt.functionDef d).exprs.flatMap Expr.headers
  | .classDef d => (Stmt.classDef d).exprs ++ (Stmt.classDef d).exprs.flatMap Expr.headers
  | other => other.exprs.flatMap Expr.headers ++ other.children.attach.flatMap fun c => headers c.1
termination_by sizeOf s
decreasing_by exact Stmt.sizeOf_lt_of_mem_children c.2

lemma Expr.headers_lambda (m : Mark) (params : Parameters Expr) (body : Expr) :
    (Expr.lambda m params body).headers = defaults params ++ (defaults params).flatMap headers := by
  rw [headers]
  simp only [List.flatMap_subtype, List.unattach_attach]

lemma Expr.headers_eq {e : Expr} (notLambda : ∀ m ps b, e ≠ .lambda m ps b) :
    e.headers = e.children.flatMap headers := by
  rw [headers]
  · simp only [List.flatMap_subtype, List.unattach_attach]
  · exact notLambda

lemma Stmt.headers_eq {s : Stmt} (notFunction : ∀ d, s ≠ .functionDef d)
    (notClass : ∀ d, s ≠ .classDef d) :
    s.headers = s.exprs.flatMap Expr.headers ++ s.children.flatMap headers := by
  rw [headers]
  · simp only [List.flatMap_subtype, List.unattach_attach]
  · exact notFunction
  · exact notClass

/-- What is inside an expression that is read is read, but for what the expression assigns to. -/
lemma Expr.For.child_load {e c : Expr} (h : e.For .load) (stored : e.stored = [])
    (hc : c ∈ e.children) : c.For .load := by
  rcases Expr.mem_children_cases hc with hc' | hc' | hc'
  · exact ⟨h.inside.here.reads c hc', h.inside.child hc⟩
  · exact h.of_mem_unpacked hc'
  · rw [stored] at hc'
    nomatch hc'

end MethodLift.Syntax

namespace MethodLift.Scope

open MethodLift.Syntax

variable {f : Frame} {base : ScopeKey} {nested : Bool} {e : Expr} {s : Stmt} {name : String} {k : ℕ}

/-! ## What goes with a scope -/

/-- In which way a name goes with a scope. -/
inductive Standing
  | bound
  | global
  | nonlocal

namespace Standing

variable {st : Standing}

/-- The event of a name going with a scope. -/
def event (key : ScopeKey) (name : String) : Standing → Event
  | bound => .bound key name
  | global => .declaredGlobal key name
  | nonlocal => .declaredNonlocal key name

/-- The names that go with a scope in a way. -/
def among (names : Names) : Standing → List String
  | bound => names.bound
  | global => names.globals
  | nonlocal => names.nonlocals

@[simp] lemma mem_among_none : name ∈ st.among .none ↔ False := by
  cases st <;> simp [among, Names.none]

@[simp] lemma mem_among_append {a b : Names} :
    name ∈ st.among (a.append b) ↔ name ∈ st.among a ∨ name ∈ st.among b := by
  cases st <;> simp [among, Names.append]

@[simp] lemma mem_among_flatten {parts : List Names} :
    name ∈ st.among (.flatten parts) ↔ ∃ names ∈ parts, name ∈ st.among names := by
  induction parts with
  | nil => simp [Names.flatten]
  | cons names parts ih => simp [Names.flatten, ← ih]

@[simp] lemma mem_among_ofBound {names : List String} :
    name ∈ st.among (.ofBound names) ↔ st = bound ∧ name ∈ names := by
  cases st <;> simp [among, Names.ofBound]

@[simp] lemma event_ne_opened {key key' : ScopeKey} {owner : ScopeOwner} :
    st.event key name ≠ .opened key' owner := by
  cases st <;> nofun

@[simp] lemma event_ne_referenced {key : ScopeKey} {r : Reference} :
    st.event key name ≠ .referenced r := by
  cases st <;> nofun

lemma event_inj {st' : Standing} {key key' : ScopeKey} {other : String} :
    st.event key name = st'.event key' other ↔ st = st' ∧ key' = key ∧ name = other := by
  cases st <;> cases st' <;> simp [event, eq_comm]

@[simp] lemma event_eq_bound {key key' : ScopeKey} {other : String} :
    st.event key name = .bound key' other ↔ st = bound ∧ key' = key ∧ name = other :=
  @event_inj name st bound key key' other

end Standing

/-! ## Frames -/

/-- A frame is directly in a scope, or nested in it by comprehensions. -/
structure Frame.StandsIn (base : ScopeKey) (nested : Bool) (f : Frame) : Prop where
  around : f.chain ≠ []
  walrus : f.forWalrus.key = base
  here : if nested then ∃ n, f.key = .expr n else f.key = base

namespace Frame.StandsIn

lemma key_eq (h : f.StandsIn base false) : f.key = base := h.here

/-- A comprehension nests what is in it. -/
lemma comprehension (h : f.StandsIn base nested) (n : ℕ) :
    (f.enter (.expr n) .comprehension).StandsIn base true := by
  refine ⟨by rintro ⟨⟩, ?_, n, rfl⟩
  obtain ⟨link, rest, chain⟩ := List.exists_cons_of_ne_nil h.around
  have skipped : withoutComprehensions (f.enter (.expr n) .comprehension).chain
      = withoutComprehensions f.chain := by
    rw [enter, chain]
    rfl
  have kept (l : List ScopeLink) : withoutComprehensions l = [] → l = [] := by
    fun_induction withoutComprehensions l with
    | case1 link next rest is ih => exact fun none => by cases ih none
    | case2 | case3 => exact id
  rw [← h.walrus, forWalrus, forWalrus, skipped]
  cases walrus : withoutComprehensions f.chain with
  | nil => exact absurd (kept _ walrus) h.around
  | cons => rfl

/-- Any other scope is one of its own. -/
lemma enter {kind : ScopeKind} (notComprehension : kind ≠ .comprehension) (key : ScopeKey) :
    (f.enter key kind).StandsIn key false := by
  refine ⟨nofun, ?_, rfl⟩
  have own : withoutComprehensions (f.enter key kind).chain = ⟨key, kind, true⟩ :: f.chain := by
    rw [Frame.enter]
    cases f.chain with
    | nil => rfl
    | cons => rw [withoutComprehensions, if_neg (by simpa using notComprehension)]
  rw [forWalrus, own]
  rfl

end Frame.StandsIn

/-! ## Expressions -/

/-- What the walk binds around an expression: what the collector has, and what is bound in headers.
A name in a header is only there to be read. -/
def walkedInExpr (nested : Bool) (e : Expr) : List String :=
  boundByExpr nested e ++ e.headers.flatMap (boundByExpr true)

/-- An expression that is read binds the same names inside a comprehension and outside. -/
lemma boundByExpr_of_load (h : e.For .load) : boundByExpr nested e = boundByExpr true e := by
  induction e using Expr.branching.induction with
  | step e ih =>
    cases e with
    | name m id ctx =>
      obtain rfl := h.here ctx rfl
      simp [boundByExpr]
    | named m target value =>
      have read : value.For .load :=
        ⟨h.inside.here.reads _ List.mem_cons_self, h.inside.child (.tail _ List.mem_cons_self)⟩
      rw [boundByExpr, boundByExpr, ih value (.tail _ List.mem_cons_self) read]
    | lambda | comprehension => rw [boundByExpr, boundByExpr]
    | _ =>
      rw [boundByExpr, boundByExpr]
      · congr 1
        funext c
        exact ih c.1 c.2 (h.child_load rfl c.2)
      all_goals simp

lemma walkedInExpr_of_load (h : e.For .load) : walkedInExpr nested e = walkedInExpr true e := by
  rw [walkedInExpr, walkedInExpr, boundByExpr_of_load h]

lemma mem_flatMap_walkedInExpr {es : List Expr} :
    name ∈ es.flatMap (boundByExpr nested) ++ (es.flatMap Expr.headers).flatMap (boundByExpr true)
      ↔ ∃ c ∈ es, name ∈ walkedInExpr nested c := by
  rw [List.mem_append, List.flatMap_assoc, List.mem_flatMap, List.mem_flatMap, ← exists_or]
  simp only [walkedInExpr, List.mem_append, ← and_or_left]

/-- An expression that opens no scope and is no target binds what is bound inside it. -/
lemma boundByExpr_eq (notName : ∀ m id ctx, e ≠ .name m id ctx)
    (notNamed : ∀ m t v, e ≠ .named m t v) (notLambda : ∀ m ps b, e ≠ .lambda m ps b)
    (notComprehension : ∀ m k x v gs, e ≠ .comprehension m k x v gs) :
    boundByExpr nested e = e.children.flatMap (boundByExpr nested) := by
  rw [boundByExpr]
  · simp only [List.flatMap_subtype, List.unattach_attach]
  · exact notName
  · exact notNamed
  · exact notLambda
  · exact notComprehension

/-- A comprehension binds what is bound inside it, where only assignment expressions bind. -/
lemma boundByExpr_comprehension {m : Mark} {kind : ComprehensionKind} {element : Expr}
    {value : Option Expr} {gs : List (Generator Expr)} :
    boundByExpr nested (.comprehension m kind element value gs)
      = (Expr.comprehension m kind element value gs).children.flatMap (boundByExpr true) := by
  rw [boundByExpr]
  simp only [List.flatMap_subtype, List.unattach_attach]

lemma mem_walkedInExpr_iff (notName : ∀ m id ctx, e ≠ .name m id ctx)
    (notNamed : ∀ m t v, e ≠ .named m t v) (notLambda : ∀ m ps b, e ≠ .lambda m ps b)
    (notComprehension : ∀ m k x v gs, e ≠ .comprehension m k x v gs) :
    name ∈ walkedInExpr nested e ↔ ∃ c ∈ e.children, name ∈ walkedInExpr nested c := by
  rw [walkedInExpr, boundByExpr_eq notName notNamed notLambda notComprehension,
    Expr.headers_eq notLambda, mem_flatMap_walkedInExpr]

lemma mem_walkedInExpr_comprehension {m : Mark} {kind : ComprehensionKind} {element : Expr}
    {value : Option Expr} {gs : List (Generator Expr)} :
    name ∈ walkedInExpr nested (.comprehension m kind element value gs)
      ↔ ∃ c ∈ (Expr.comprehension m kind element value gs).children,
        name ∈ walkedInExpr true c := by
  rw [walkedInExpr, boundByExpr_comprehension, Expr.headers_eq (by rintro _ _ _ ⟨⟩),
    mem_flatMap_walkedInExpr]

/-- A lambda binds what its defaults bind. -/
lemma mem_walkedInExpr_lambda {m : Mark} {params : Parameters Expr} {body : Expr} :
    name ∈ walkedInExpr nested (.lambda m params body)
      ↔ ∃ c ∈ defaults params, name ∈ walkedInExpr true c := by
  rw [walkedInExpr, boundByExpr, Expr.headers_lambda, List.nil_append, List.flatMap_append,
    mem_flatMap_walkedInExpr]

/-- A name has no headers. -/
lemma headers_name (m : Mark) (id : String) (ctx : Context) : (Expr.name m id ctx).headers = [] := by
  rw [Expr.headers_eq (by rintro _ _ _ ⟨⟩)]
  rfl

/-- An assignment expression binds its name and what its value binds. -/
lemma mem_walkedInExpr_named {m mark : Mark} {id : String} {ctx : Context} {value : Expr} :
    name ∈ walkedInExpr nested (.named m (.name mark id ctx) value)
      ↔ name = id ∨ name ∈ walkedInExpr nested value := by
  rw [walkedInExpr, boundByExpr, Expr.headers_eq (by rintro _ _ _ ⟨⟩)]
  simp [Expr.children, headers_name, Expr.asName, walkedInExpr]

/-- A statement that opens no scope binds and declares what is bound and declared in it. -/
lemma namesOfStmt_eq (notFunction : ∀ d, s ≠ .functionDef d) (notClass : ∀ d, s ≠ .classDef d) :
    namesOfStmt s = ((ownNames s).append (.ofBound (s.exprs.flatMap (boundByExpr false)))).append
      (.flatten (s.children.map namesOfStmt)) := by
  rw [namesOfStmt]
  · simp
  · exact notFunction
  · exact notClass

/-! ### Walking over expressions -/

/-- Using what is inside an expression passes nothing over. -/
lemma map_snd_usedChildren (use : Use) (e : Expr) :
    (usedChildren use e).map (·.2) = e.children := by
  unfold usedChildren
  split
  · rfl
  · simp [Expr.children]
  · simp

/-- The parts of a comprehension are its first iterable and those evaluated in its own scope. -/
lemma mem_children_comprehension {m : Mark} {kind : ComprehensionKind} {element : Expr}
    {value : Option Expr} {gs : List (Generator Expr)} {c : Expr} :
    c ∈ (Expr.comprehension m kind element value gs).children
      ↔ c ∈ firstIterable gs ∨ c ∈ comprehensionParts element value gs := by
  constructor
  · intro hc
    cases gs with
    | nil => exact .inr (by simpa [Expr.children, comprehensionParts] using hc)
    | cons g gs =>
      simp only [Expr.children, comprehensionParts, firstIterable, Generator.exprs,
        List.head?_cons, Option.map_some, Option.toList_some, List.mem_append, List.mem_cons,
        List.flatMap_cons] at *
      grind
  · rintro (hc | hc)
    · exact mem_children_of_mem_firstIterable hc
    · exact mem_children_of_mem_comprehensionParts hc

lemma mem_reads_of_mem_firstIterable (m : Mark) (kind : ComprehensionKind) (element : Expr)
    (value : Option Expr) {gs : List (Generator Expr)} {c : Expr} (hc : c ∈ firstIterable gs) :
    c ∈ (Expr.comprehension m kind element value gs).reads := by
  cases gs with
  | nil => nomatch hc
  | cons g gs =>
    obtain rfl := List.mem_singleton.1 hc
    exact List.mem_append_right _ (List.mem_flatMap.2 ⟨g, List.mem_cons_self, List.mem_cons_self⟩)

variable {st : Standing}

lemma mem_store {key : ScopeKey} {other : String} {span : Span} :
    st.event key name ∈ f.store other span ↔ (st = .bound ∧ f.key = key) ∧ name = other := by
  rw [Frame.store, Frame.bind, List.mem_cons, Standing.event_eq_bound, List.mem_singleton,
    and_assoc]
  simp

/-- Names that all go with a scope in the same way. -/
lemma mem_idents (st' : Standing) {key key' : ScopeKey} {idents : List Ident} :
    st.event key name ∈ idents.map (fun ident => st'.event key' ident.name)
      ↔ (st = st' ∧ key' = key) ∧ name ∈ idents.map (·.name) := by
  rw [List.mem_map, List.mem_map]
  constructor
  · rintro ⟨ident, hi, same⟩
    obtain ⟨is, key, rfl⟩ := Standing.event_inj.1 same.symm
    exact ⟨⟨is, key⟩, ident, hi, rfl⟩
  · rintro ⟨⟨is, key⟩, ident, hi, rfl⟩
    exact ⟨ident, hi, (Standing.event_inj.2 ⟨is, key, rfl⟩).symm⟩

lemma mem_binds {key : ScopeKey} {idents : List Ident} :
    st.event key name ∈ idents.map (fun ident => f.bind ident.name)
      ↔ (st = .bound ∧ f.key = key) ∧ name ∈ idents.map (·.name) := mem_idents .bound

/-- An event among those of several parts, where each has it on the same condition. -/
lemma mem_flatMap_iff {α : Type} {xs : List α} {event : Event} {events : α → List Event} {p : Prop}
    {q : α → Prop} (each : ∀ x ∈ xs, (event ∈ events x ↔ p ∧ q x)) :
    event ∈ xs.flatMap events ↔ p ∧ ∃ x ∈ xs, q x := by
  rw [List.mem_flatMap]
  constructor
  · rintro ⟨x, hx, there⟩
    obtain ⟨hp, hq⟩ := (each x hx).1 there
    exact ⟨hp, x, hx, hq⟩
  · rintro ⟨hp, x, hx, hq⟩
    exact ⟨x, hx, (each x hx).2 ⟨hp, hq⟩⟩

/-- In the scope of a statement, an expression binds what the collector finds in it and what its
headers bind. -/
theorem mem_traceExpr {use : Use} : ∀ {base : ScopeKey} {nested : Bool}, f.StandsIn base nested →
    e.Everywhere Expr.Fitting → (st.event (.stmt k) name ∈ traceExpr f use e
      ↔ (st = .bound ∧ base = .stmt k) ∧ name ∈ walkedInExpr nested e) := by
  fun_induction traceExpr f use e with
  | case1 frame use m id ctx =>
    intro base nested stands fits
    have event : st.event (.stmt k) name
        ∈ (if ctx == .load then [] else [frame.bind id]) ++ [.referenced ⟨id, m.span, ctx, frame, use⟩]
        ↔ ctx ≠ .load ∧ (st = .bound ∧ frame.key = .stmt k) ∧ name = id := by
      by_cases load : ctx = .load <;> simp [load, Frame.bind, and_assoc]
    rw [event, walkedInExpr, boundByExpr, headers_name]
    cases nested with
    | true =>
      obtain ⟨n, key⟩ := stands.here
      simp [key]
    | false =>
      rw [stands.key_eq]
      by_cases load : ctx = .load <;> simp [load]
  | case2 frame use m target value value_events target_events =>
    intro base nested stands fits
    obtain ⟨mark, id, ctx, rfl⟩ := fits.here.namesTarget
    rw [List.mem_append, value_events stands (fits.child (.tail _ List.mem_cons_self)), mem_store,
      stands.walrus, mem_walkedInExpr_named, ← and_or_left, or_comm]
  | case3 frame use m params body key inner =>
    rename_i defaults_events body_events
    intro base nested stands fits
    have default_events (c : Expr) (hc : c ∈ defaults params) :
        st.event (.stmt k) name ∈ traceExpr frame .plain c
          ↔ (st = .bound ∧ base = .stmt k) ∧ name ∈ walkedInExpr true c := by
      have child : c ∈ (Expr.lambda m params body).children :=
        List.mem_append_left _ (mem_exprs_of_mem_defaults hc)
      rw [defaults_events ⟨c, hc⟩ stands (fits.child child), walkedInExpr_of_load]
      exact ⟨fits.here.reads c child, fits.child child⟩
    -- what is bound in the lambda is bound there
    have body_stands : inner.StandsIn key false := .enter (by simp) key
    have elsewhere : inner.key ≠ .stmt k := by rintro ⟨⟩
    have own : st.event (.stmt k) name ∉ traceExpr inner .plain body := by
      rw [body_events body_stands (fits.child (by simp [Expr.children]))]
      exact fun here => absurd here.1.2 (by simp)
    simp only [List.flatMap_subtype, List.unattach_attach]
    rw [List.mem_append, List.mem_append, List.mem_cons, mem_binds, mem_walkedInExpr_lambda,
      mem_flatMap_iff default_events]
    simp only [elsewhere, own, Standing.event_ne_opened, and_false, false_and, or_false]
  | case4 frame use m kind element value generators key inner =>
    rename_i iterable_events parts_events
    intro base nested stands fits
    have iterable (c : Expr) (hc : c ∈ firstIterable generators) :
        st.event (.stmt k) name ∈ traceExpr frame .plain c
          ↔ (st = .bound ∧ base = .stmt k) ∧ name ∈ walkedInExpr true c := by
      have read := mem_reads_of_mem_firstIterable m kind element value hc
      have child := @mem_children_of_mem_firstIterable m kind element value generators c hc
      rw [iterable_events ⟨c, hc⟩ stands (fits.child child), walkedInExpr_of_load]
      exact ⟨fits.here.reads c read, fits.child child⟩
    have parts (c : Expr) (hc : c ∈ comprehensionParts element value generators) :
        st.event (.stmt k) name ∈ traceExpr inner .plain c
          ↔ (st = .bound ∧ base = .stmt k) ∧ name ∈ walkedInExpr true c := by
      have child := @mem_children_of_mem_comprehensionParts m kind element value generators c hc
      exact parts_events ⟨c, hc⟩ (stands.comprehension _) (fits.child child)
    simp only [List.flatMap_subtype, List.unattach_attach]
    rw [List.mem_append, List.mem_cons, mem_walkedInExpr_comprehension, mem_flatMap_iff iterable,
      mem_flatMap_iff parts]
    simp only [Standing.event_ne_opened, false_or, mem_children_comprehension, or_and_right,
      exists_or, and_or_left]
  | case5 frame use e notName notNamed notLambda notComprehension children_events =>
    intro base nested stands fits
    have each (c : Use × Expr) (hc : c ∈ usedChildren use e) :
        st.event (.stmt k) name ∈ traceExpr frame c.1 c.2
          ↔ (st = .bound ∧ base = .stmt k) ∧ name ∈ walkedInExpr nested c.2 :=
      children_events ⟨c, hc⟩ stands (fits.child (mem_children_of_mem_usedChildren hc))
    simp only [List.flatMap_subtype, List.unattach_attach]
    rw [mem_flatMap_iff each, mem_walkedInExpr_iff notName notNamed notLambda notComprehension,
      ← map_snd_usedChildren use e]
    simp only [List.mem_map, exists_exists_and_eq_and]

end MethodLift.Scope
