import MethodLift.Proofs.Scope.Places
import MethodLift.Proofs.Syntax.Nesting
import MethodLift.Scope.Analysis

/-!
# The walk through a function and its tree

The walk through a function emits events in the order of evaluation; the tree says which nodes are
evaluated in which scopes.  Here the two are compared: the events are, in some order, what each node
of the tree does to names in the scopes that it is evaluated in (`traceExpr_perm`, `traceStmt_perm`).
No node is passed over and none is visited twice.

What an event says is reduced to what looking up names goes by (`Happening`): of a chain of scopes
only which ones they are and whether they are bodies of classes.
-/

namespace MethodLift.Scope

open MethodLift.Syntax

/-! ## What happens to names -/

/-- A scope as far as looking up names goes. -/
structure Layer where
  key : ScopeKey
  isClass : Bool
deriving DecidableEq, Repr, Inhabited

/-- Something that happens to a name, or a scope for names that opens. -/
inductive Happening
  | opened (scope : ScopeKey)
  | bound (scope : ScopeKey) (name : String)
  | declaredGlobal (scope : ScopeKey) (name : String)
  | declaredNonlocal (scope : ScopeKey) (name : String)
  /-- A name is mentioned, to be read or not. -/
  | mentioned (name : String) (span : Span) (loads : Bool) (use : Use) (layers : List Layer)
deriving DecidableEq, Repr, Inhabited

def ScopeLink.layer (l : ScopeLink) : Layer := ⟨l.key, l.kind == .class_⟩

/-- What a reference does to its name. -/
def Reference.happening (r : Reference) : Happening :=
  .mentioned r.name r.span (r.ctx == .load) r.use (r.frame.chain.map (·.layer))

/-- What an event does to a name. -/
def Event.happening : Event → Happening
  | .opened key _ => .opened key
  | .bound key name => .bound key name
  | .declaredGlobal key name => .declaredGlobal key name
  | .declaredNonlocal key name => .declaredNonlocal key name
  | .referenced r => r.happening

def happenings (events : List Event) : List Happening := events.map Event.happening

@[simp] lemma happenings_nil : happenings [] = [] := rfl

@[simp] lemma happenings_append (a b : List Event) :
    happenings (a ++ b) = happenings a ++ happenings b := List.map_append

@[simp] lemma happenings_opened (key : ScopeKey) (owner : ScopeOwner) (es : List Event) :
    happenings (.opened key owner :: es) = .opened key :: happenings es := rfl

lemma happenings_flatMap {α : Type} (xs : List α) (f : α → List Event) :
    happenings (xs.flatMap f) = xs.flatMap fun x => happenings (f x) := List.map_flatMap ..

/-- Whether an expression is called. -/
def Use.calls : Use → Bool
  | .callee _ => true
  | _ => false

/-- The innermost scope of a chain. -/
def innermost (layers : List Layer) : ScopeKey := (layers.headD default).key

end MethodLift.Scope

namespace MethodLift.Syntax

open Scope (Layer Happening Use ScopeKey ScopeLink innermost)

namespace Node

def layer (n : Node) : Layer := ⟨n.key, n.isClass⟩

/-- The scope that a node opens. -/
def opens (n : Node) : List ScopeKey :=
  match n with
  | stmt (.functionDef _) | stmt (.classDef _) | read (.lambda ..) | read (.comprehension ..) =>
    [n.key]
  | _ => []

/-- The mention of a name that a node is, or the mentions of the names that a statement gives
something to. -/
def mentions (use : Use) (layers : List Layer) : Node → List Happening
  | read (.name m id _) => [.mentioned id m.span true use layers]
  | target (.name m id _) => [.mentioned id m.span false use layers]
  | stmt (.functionDef d) => [.mentioned d.name.name d.name.span false .plain layers]
  | stmt (.classDef d) => [.mentioned d.name.name d.name.span false .plain layers]
  | stmt (.importModules _ names) | stmt (.importFrom _ _ _ names _) => names.map fun a =>
    .mentioned a.boundName ((a.asname.map (·.span)).getD a.span) false .plain layers
  | stmt (.tryBlock _ _ handlers _ _) => handlers.flatMap fun h => h.name.toList.map fun ident =>
    .mentioned ident.name ident.span false .plain layers
  | _ => []

/-- What a node itself does to names in a chain of scopes. -/
def happenings (use : Use) (layers : List Layer) (n : Node) : List Happening :=
  n.opens.map .opened
    ++ n.parameters.map (.bound n.key)
    ++ n.bound.map (.bound (innermost layers))
    ++ n.globals.map (.declaredGlobal (innermost layers))
    ++ n.nonlocals.map (.declaredNonlocal (innermost layers))
    ++ n.mentions use layers

/-- The parts of a node, each with what the node does with it. -/
def usedParts (use : Use) (scopes : List Node) (n : Node) : List (Use × ScopedNode) :=
  match n.expr? with
  | some (.attr m value member ctx) =>
    [(.object member ctx m.span use.calls, ⟨scopes, read value⟩)]
  | some (.call _ func args) =>
    (.callee args.isEmpty, ⟨scopes, read func⟩)
      :: args.map fun a => (.plain, ⟨scopes, read a.value⟩)
  | _ => (n.evaluated scopes).map (Use.plain, ·)

lemma map_snd_usedParts (use : Use) (scopes : List Node) (n : Node) :
    (n.usedParts use scopes).map (·.2) = n.evaluated scopes := by
  unfold usedParts
  split
  next is =>
    cases n with
    | read e | target e =>
      obtain rfl := Option.some.inj is
      rfl
    | stmt s => cases is
  next is =>
    cases n with
    | read e | target e =>
      obtain rfl := Option.some.inj is
      simp [evaluated, allIn, parts, ofRead, ofTarget, Expr.children, reads]
    | stmt s => cases is
  · simp

lemma mem_parts_of_mem_usedParts {use : Use} {scopes : List Node} {n : Node}
    {q : Use × ScopedNode} (h : q ∈ n.usedParts use scopes) : q.2.node ∈ n.parts :=
  mem_parts_of_mem_evaluated (map_snd_usedParts use scopes n ▸ List.mem_map_of_mem h)

/-- A node that is evaluated in the given scopes and put to the given use, and everything inside
it. -/
def usedFrom (use : Use) (scopes : List Node) (n : Node) : List (Use × ScopedNode) :=
  (use, ⟨scopes, n⟩) :: (n.usedParts use scopes).attach.flatMap fun q =>
    usedFrom q.1.1 q.1.2.scopes q.1.2.node
termination_by n.size
decreasing_by exact size_lt_of_mem_parts (mem_parts_of_mem_usedParts q.2)

theorem usedFrom_eq (use : Use) (scopes : List Node) (n : Node) :
    n.usedFrom use scopes
      = (use, ⟨scopes, n⟩) :: (n.usedParts use scopes).flatMap fun q =>
        q.2.node.usedFrom q.1 q.2.scopes := by
  rw [usedFrom]
  congr 1
  conv => rhs; rw [← List.attach_map_subtype_val (n.usedParts use scopes), List.flatMap_map]

/-- A chain of scopes of the tree, in a chain around the tree. -/
def layersOf (around : List ScopeLink) (scopes : List Node) : List Layer :=
  scopes.map layer ++ around.map (·.layer)

/-- What a node and everything inside it do to names. -/
def allHappenings (around : List ScopeLink) (use : Use) (scopes : List Node) (n : Node) :
    List Happening :=
  (n.usedFrom use scopes).flatMap fun q => q.2.node.happenings q.1 (layersOf around q.2.scopes)

lemma allHappenings_eq (around : List ScopeLink) (use : Use) (scopes : List Node) (n : Node) :
    n.allHappenings around use scopes
      = n.happenings use (layersOf around scopes) ++ (n.usedParts use scopes).flatMap fun q =>
        q.2.node.allHappenings around q.1 q.2.scopes := by
  rw [allHappenings, usedFrom_eq, List.flatMap_cons, List.flatMap_assoc]
  rfl

end Node

end MethodLift.Syntax

namespace MethodLift.Scope

open MethodLift.Syntax

/-! ## Frames -/

/-- A frame whose chain of scopes is a chain of the tree inside another chain. -/
structure Sees (around : List ScopeLink) (scopes : List Node) (f : Frame) : Prop where
  chain : ∃ own, f.chain = own ++ around
    ∧ own.map (fun l => (l.layer, l.kind == .comprehension))
      = scopes.map fun n => (n.layer, n.isComprehension)
  /-- Comprehensions stand in something else. -/
  outside : ∀ l ∈ around, l.kind ≠ .comprehension
  grounded : ∃ l ∈ f.chain, l.kind ≠ .comprehension

namespace Sees

variable {around : List ScopeLink} {scopes : List Node} {f : Frame}

lemma layers (h : Sees around scopes f) :
    f.chain.map (·.layer) = Node.layersOf around scopes := by
  obtain ⟨own, chain, same⟩ := h.chain
  have own_layers := congrArg (List.map Prod.fst) same
  simp only [List.map_map, Function.comp_def] at own_layers
  rw [chain, List.map_append, own_layers]
  rfl

lemma key (h : Sees around scopes f) : f.key = innermost (Node.layersOf around scopes) := by
  rw [← h.layers]
  obtain ⟨l, hl, -⟩ := h.grounded
  unfold Frame.key innermost
  cases chain : f.chain with
  | nil => simp [chain] at hl
  | cons link rest => rfl

/-- The frame inside a scope that opens. -/
lemma enter (h : Sees around scopes f) {n : Node} {kind : ScopeKind}
    (isClass : (kind == .class_) = n.isClass)
    (isComprehension : (kind == .comprehension) = n.isComprehension) :
    Sees around (n :: scopes) (f.enter n.key kind) := by
  obtain ⟨own, chain, same⟩ := h.chain
  obtain ⟨l, hl, ground⟩ := h.grounded
  refine ⟨⟨⟨n.key, kind, true⟩ :: own, ?_, ?_⟩, h.outside, ⟨l, List.mem_cons_of_mem _ hl, ground⟩⟩
  · rw [Frame.enter, chain]
    rfl
  · rw [List.map_cons, List.map_cons, same, ScopeLink.layer, isClass, isComprehension]
    rfl

lemma withoutComprehensions_eq {chain : List ScopeLink}
    (ground : ∃ l ∈ chain, l.kind ≠ .comprehension) :
    Frame.withoutComprehensions chain = chain.dropWhile (·.kind == .comprehension) := by
  fun_induction Frame.withoutComprehensions chain with
  | case1 link next rest is ih =>
    obtain ⟨l, hl, ne⟩ := ground
    have later : ∃ l ∈ next :: rest, l.kind ≠ .comprehension := by
      rcases List.mem_cons.1 hl with rfl | hl
      · exact absurd (eq_of_beq is) ne
      · exact ⟨l, hl, ne⟩
    rw [ih later]
    simp only [List.dropWhile_cons, is, if_true]
  | case2 link next rest other => simp only [List.dropWhile_cons, other, Bool.false_eq_true,
    if_false]
  | case3 chain short =>
    cases chain with
    | nil => rfl
    | cons link rest =>
      cases rest with
      | nil =>
        obtain ⟨l, hl, ne⟩ := ground
        obtain rfl := List.mem_singleton.1 hl
        exact (List.dropWhile_cons_of_neg (by simpa using ne)).symm
      | cons next rest => exact absurd rfl (short link next rest)

/-- The frame that assignment expressions bind in. -/
lemma forWalrus (h : Sees around scopes f) :
    Sees around (scopes.dropWhile Node.isComprehension) f.forWalrus := by
  obtain ⟨own, chain, same⟩ := h.chain
  have dropped : Frame.withoutComprehensions f.chain
      = own.dropWhile (·.kind == .comprehension) ++ around := by
    have around_stays : around.dropWhile (·.kind == .comprehension) = around := by
      cases around with
      | nil => rfl
      | cons l rest =>
        exact List.dropWhile_cons_of_neg (by simpa using h.outside l List.mem_cons_self)
    rw [withoutComprehensions_eq h.grounded, chain, List.dropWhile_append, around_stays]
    split
    next none => rw [List.isEmpty_iff.1 none, List.nil_append]
    · rfl
  have chain' : f.forWalrus.chain = own.dropWhile (·.kind == .comprehension) ++ around := by
    rw [← dropped]
    unfold Frame.forWalrus
    dsimp only
    split
    · rfl
    next none =>
      -- a chain in which something is no comprehension does not vanish
      rw [withoutComprehensions_eq h.grounded, List.dropWhile_eq_nil_iff] at none
      obtain ⟨l, hl, ne⟩ := h.grounded
      exact absurd (eq_of_beq (none l hl)) ne
  have matching {own : List ScopeLink} {scopes : List Node}
      (same : own.map (fun l => (l.layer, l.kind == .comprehension))
        = scopes.map fun n => (n.layer, n.isComprehension)) :
      (own.dropWhile (·.kind == .comprehension)).map (fun l => (l.layer, l.kind == .comprehension))
        = (scopes.dropWhile Node.isComprehension).map fun n => (n.layer, n.isComprehension) := by
    induction own generalizing scopes with
    | nil =>
      obtain rfl := List.map_eq_nil_iff.1 same.symm
      rfl
    | cons l own ih =>
      cases scopes with
      | nil => nomatch same
      | cons n scopes =>
        obtain ⟨head, tail⟩ := List.cons.inj same
        obtain ⟨-, kinds⟩ := Prod.mk.inj head
        rw [List.dropWhile_cons, List.dropWhile_cons, kinds]
        split
        · exact ih tail
        · exact same
  refine ⟨⟨_, chain', matching same⟩, h.outside, ?_⟩
  rw [chain', ← dropped, withoutComprehensions_eq h.grounded]
  obtain ⟨l, hl, ne⟩ := h.grounded
  let inComprehension (l : ScopeLink) : Bool := l.kind == .comprehension
  rw [← List.takeWhile_append_dropWhile (p := inComprehension) (l := f.chain),
    List.mem_append] at hl
  rcases hl with hl | hl
  · have skipped : inComprehension l = true := List.mem_takeWhile_imp hl
    exact absurd (eq_of_beq skipped) ne
  · exact ⟨l, hl, ne⟩

end Sees

/-! ## The walk -/

section Walk

variable {around : List ScopeLink} {scopes : List Node} {f : Frame} {n : Node} {use : Use}

/-- The events of a node that is an expression are, in some order, what happens to names in it. -/
def Follows (around : List ScopeLink) (n : Node) : Prop :=
  ∀ e, n.expr? = some e → ∀ use scopes f, Sees around scopes f →
    (happenings (traceExpr f use e)).Perm (n.allHappenings around use scopes)

/-! ### Several nodes -/

/-- Nodes that are evaluated in the same scopes. -/
lemma flatMap_allIn (ns : List Node) :
    ((Node.allIn scopes ns).map (Use.plain, ·)).flatMap
        (fun q => q.2.node.allHappenings around q.1 q.2.scopes)
      = ns.flatMap (Node.allHappenings around .plain scopes) := by
  rw [Node.allIn, List.map_map, List.flatMap_map]
  rfl

/-- Expressions that are evaluated in the same scopes. -/
lemma exprs_perm {ns : List Node} {es : List Expr} (sees : Sees around scopes f)
    (are : ns.map Node.expr? = es.map some) (each : ∀ c ∈ ns, Follows around c) :
    (happenings (es.flatMap (traceExpr f .plain))).Perm
      (ns.flatMap (Node.allHappenings around .plain scopes)) := by
  rw [happenings_flatMap]
  induction ns generalizing es with
  | nil =>
    obtain rfl := List.map_eq_nil_iff.1 are.symm
    exact .refl _
  | cons c ns ih =>
    cases es with
    | nil => nomatch are
    | cons e es =>
      obtain ⟨is, are⟩ := List.cons.inj are
      rw [List.flatMap_cons, List.flatMap_cons]
      exact (each c List.mem_cons_self e is .plain scopes f sees).append
        (ih are fun d hd => each d (List.mem_cons_of_mem _ hd))

lemma map_expr?_reads (es : List Expr) : (Node.reads es).map Node.expr? = es.map some := by
  simp [Node.reads, Function.comp_def]

lemma map_expr?_ofGenerator (g : Generator Expr) :
    (Node.ofGenerator g).map Node.expr? = g.exprs.map some := by
  simp [Node.ofGenerator, Generator.exprs, map_expr?_reads]

/-! ### One expression -/

/-- An expression that is no target by its form is evaluated. -/
lemma eq_read_of_load {e : Expr} (role : n.InRole) (is : n.expr? = some e) (load : e.ctx = .load) :
    n = .read e := by
  cases n with
  | read d => rw [Option.some.inj is]
  | target d =>
    obtain rfl := Option.some.inj is
    exact absurd load role
  | stmt s => nomatch is

/-- Only names, lambdas and comprehensions are expressions that something happens in itself. -/
lemma happenings_eq_nil {layers : List Layer} {e : Expr} (is : n.expr? = some e)
    (notName : ∀ m id ctx, e ≠ .name m id ctx) (notLambda : ∀ m ps b, e ≠ .lambda m ps b)
    (notComprehension : ∀ m k x v gs, e ≠ .comprehension m k x v gs) :
    n.happenings use layers = [] := by
  cases n with
  | read d =>
    obtain rfl := Option.some.inj is
    cases d with
    | name m id ctx => exact absurd rfl (notName m id ctx)
    | lambda m ps b => exact absurd rfl (notLambda m ps b)
    | comprehension m k x v gs => exact absurd rfl (notComprehension m k x v gs)
    | _ => rfl
  | target d =>
    obtain rfl := Option.some.inj is
    cases d with
    | name m id ctx => exact absurd rfl (notName m id ctx)
    | _ => rfl
  | stmt s => nomatch is

/-- A name that is read. -/
lemma allHappenings_readName (m : Mark) (id : String) (ctx : Context) :
    (Node.read (.name m id ctx)).allHappenings around use scopes
      = [.mentioned id m.span true use (Node.layersOf around scopes)] := by
  rw [Node.allHappenings_eq]
  rfl

/-- A name that something is given to. -/
lemma allHappenings_targetName (m : Mark) (id : String) (ctx : Context) :
    (Node.target (.name m id ctx)).allHappenings around use scopes
      = [.bound (innermost (Node.layersOf around scopes)) id,
        .mentioned id m.span false use (Node.layersOf around scopes)] := by
  rw [Node.allHappenings_eq]
  rfl

lemma happenings_store (sees : Sees around scopes f) (name : String) (span : Span) :
    happenings (f.store name span) = [.bound (innermost (Node.layersOf around scopes)) name,
      .mentioned name span false .plain (Node.layersOf around scopes)] := by
  rw [← sees.key, ← sees.layers]
  rfl

lemma happenings_bind (f : Frame) (names : List Ident) :
    happenings (names.map fun ident => f.bind ident.name)
      = (names.map (·.name)).map (.bound f.key) := by
  rw [happenings, List.map_map, List.map_map]
  rfl

lemma name_follows {m : Mark} {id : String} {ctx : Context} (role : n.InRole)
    (is : n.expr? = some (.name m id ctx)) : Follows around n := by
  intro e is' use scopes f sees
  obtain rfl := Option.some.inj (is.symm.trans is')
  rw [traceExpr]
  cases n with
  | read d =>
    obtain rfl := Option.some.inj is
    obtain rfl : ctx = .load := role
    rw [allHappenings_readName, ← sees.layers]
    exact .refl _
  | target d =>
    obtain rfl := Option.some.inj is
    have stores : ctx ≠ .load := role
    rw [allHappenings_targetName, ← sees.key, ← sees.layers]
    simp [happenings, Event.happening, Reference.happening, Frame.bind, stores]
  | stmt s => cases is

lemma named_follows {m : Mark} {t value : Expr} (laid : (Node.read (.named m t value)).Laid)
    (inside : Follows around (.read value)) : Follows around (.read (.named m t value)) := by
  intro e is use scopes f sees
  obtain rfl := Option.some.inj is
  obtain ⟨m', id, ctx, rfl⟩ := laid.here.formed _ is
  rw [Node.allHappenings_eq, happenings_eq_nil is nofun nofun nofun, List.nil_append, traceExpr,
    happenings_append, happenings_store sees.forWalrus]
  refine List.perm_append_comm.trans ?_
  have parts := (inside _ rfl .plain scopes f sees).append_left
    ((Node.target (.name m' id ctx)).allHappenings around .plain
      (scopes.dropWhile Node.isComprehension))
  rw [allHappenings_targetName] at parts
  simpa [Node.usedParts, Node.evaluated, allHappenings_targetName] using parts

lemma lambda_follows {m : Mark} {params : Parameters Expr} {body : Expr}
    (laid : (Node.read (.lambda m params body)).Laid)
    (inside : ∀ c ∈ (Node.read (.lambda m params body)).parts, Follows around c) :
    Follows around (.read (.lambda m params body)) := by
  intro e is use scopes f sees
  obtain rfl := Option.some.inj is
  have noAnnotations : params.exprs = defaults params := by
    refine List.flatMap_congr fun p hp => ?_
    rw [laid.here.formed _ is p hp]
    rfl
  have parts : (Node.read (.lambda m params body)).parts
      = Node.reads (defaults params) ++ [.read body] := by
    simp [Node.parts, Node.ofRead, Expr.children, noAnnotations]
  rw [parts, List.forall_mem_append] at inside
  have entered : Sees around (.read (.lambda m params body) :: scopes)
      (f.enter (.expr m.serial) .lambda) := sees.enter rfl rfl
  have header := exprs_perm sees (map_expr?_reads (defaults params)) inside.1
  have ran := inside.2 _ List.mem_cons_self _ rfl .plain _ _ entered
  have own : (Node.read (.lambda m params body)).happenings use (Node.layersOf around scopes)
      = .opened (.expr m.serial)
        :: (params.names.map (·.name)).map (.bound (f.enter (.expr m.serial) .lambda).key) := by
    rw [Node.happenings, List.append_assoc, List.append_assoc, List.append_assoc, List.append_assoc]
    exact congrArg _ (List.append_nil _)
  rw [Node.allHappenings_eq, traceExpr]
  simp only [List.flatMap_subtype, List.unattach_attach, happenings_append,
    happenings_opened, Node.usedParts, Node.evaluated, Node.expr?_read, List.map_append,
    List.flatMap_append, flatMap_allIn, noAnnotations,
    happenings_bind, own, List.flatMap_singleton]
  rw [← List.append_assoc]
  refine (List.perm_append_comm.append_right _).trans ?_
  rw [List.append_assoc, List.append_assoc]
  exact (header.append ran).append_left _

lemma comprehension_follows {m : Mark} {kind : ComprehensionKind} {element : Expr}
    {value : Option Expr} {generators : List (Generator Expr)}
    (inside : ∀ c ∈ (Node.read (.comprehension m kind element value generators)).parts,
      Follows around c) :
    Follows around (.read (.comprehension m kind element value generators)) := by
  intro e is use scopes f sees
  obtain rfl := Option.some.inj is
  have entered : Sees around (.read (.comprehension m kind element value generators) :: scopes)
      (f.enter (.expr m.serial) .comprehension) := sees.enter rfl rfl
  rw [Node.parts, Node.ofRead, ← Node.reads_cons, List.forall_mem_append] at inside
  have collected := exprs_perm entered (map_expr?_reads (element :: value.toList)) inside.1
  have own : (Node.read (.comprehension m kind element value generators)).happenings use
      (Node.layersOf around scopes) = [.opened (.expr m.serial)] := rfl
  rw [Node.allHappenings_eq, own, traceExpr, List.singleton_append]
  simp only [List.flatMap_subtype, List.unattach_attach, happenings_append,
    happenings_opened, Node.usedParts, Node.evaluated,
    Node.expr?_read, List.map_append, List.flatMap_append, flatMap_allIn]
  refine List.perm_middle.trans (List.Perm.cons _ ?_)
  cases generators with
  | nil =>
    rw [firstIterable, comprehensionParts, Node.clausesScoped]
    simpa using collected
  | cons g gs =>
    obtain ⟨-, inClauses⟩ := inside
    rw [List.flatMap_cons, List.forall_mem_append, Node.ofGenerator, List.forall_mem_cons,
      List.forall_mem_cons] at inClauses
    obtain ⟨⟨inTarget, inIterable, inConditions⟩, inOthers⟩ := inClauses
    have iterable := inIterable _ rfl .plain _ _ sees
    have targeted := inTarget _ rfl .plain _ _ entered
    have are : (Node.reads g.conditions ++ gs.flatMap Node.ofGenerator).map Node.expr?
        = (g.conditions ++ gs.flatMap (·.exprs)).map some := by
      simp [map_expr?_reads, List.map_flatMap, map_expr?_ofGenerator]
    have others := exprs_perm entered are (List.forall_mem_append.2 ⟨inConditions, inOthers⟩)
    rw [firstIterable, comprehensionParts, Node.clausesScoped]
    simp only [List.map_cons, List.flatMap_cons, flatMap_allIn, List.head?_cons, Option.map_some,
      Option.toList_some, List.cons_append, List.flatMap_append, happenings_append,
      List.flatMap_nil] at others collected ⊢
    have moved := iterable.append (targeted.append (others.append collected))
    refine List.Perm.trans (by simpa using moved) (List.perm_iff_count.2 fun h => ?_)
    simp only [List.count_append]
    omega

/-- The events of an expression that does nothing to names itself. -/
lemma allHappenings_of_expr {e : Expr} (is : n.expr? = some e)
    (notName : ∀ m id ctx, e ≠ .name m id ctx) (notLambda : ∀ m ps b, e ≠ .lambda m ps b)
    (notComprehension : ∀ m k x v gs, e ≠ .comprehension m k x v gs) :
    n.allHappenings around use scopes = (n.usedParts use scopes).flatMap fun q =>
      q.2.node.allHappenings around q.1 q.2.scopes := by
  rw [Node.allHappenings_eq, happenings_eq_nil is notName notLambda notComprehension,
    List.nil_append]

lemma attr_follows {m : Mark} {value : Expr} {member : Ident} {ctx : Context}
    (is : n.expr? = some (.attr m value member ctx)) (inside : ∀ c ∈ n.parts, Follows around c) :
    Follows around n := by
  intro e is' use scopes f sees
  obtain rfl := Option.some.inj (is.symm.trans is')
  have used : n.usedParts use scopes
      = [(.object member ctx m.span use.calls, ⟨scopes, .read value⟩)] := by
    simp only [Node.usedParts, is]
  have children : usedChildren use (.attr m value member ctx)
      = [(.object member ctx m.span use.calls, value)] := by
    cases use <;> rfl
  have hv : .read value ∈ n.parts :=
    Node.mem_parts_of_mem_usedParts (q := (_, ⟨scopes, .read value⟩)) (used ▸ List.mem_cons_self)
  rw [allHappenings_of_expr is (by simp) (by simp) (by simp), used, traceExpr, children]
  · simpa using inside _ hv _ rfl _ _ _ sees
  all_goals simp

lemma call_follows {m : Mark} {func : Expr} {args : List (Arg Expr)}
    (is : n.expr? = some (.call m func args)) (inside : ∀ c ∈ n.parts, Follows around c) :
    Follows around n := by
  intro e is' use scopes f sees
  obtain rfl := Option.some.inj (is.symm.trans is')
  have used : n.usedParts use scopes = (.callee args.isEmpty, ⟨scopes, .read func⟩)
      :: args.map fun a => (.plain, ⟨scopes, .read a.value⟩) := by
    simp only [Node.usedParts, is]
  have each : ∀ q ∈ n.usedParts use scopes, Follows around q.2.node :=
    fun q hq => inside _ (Node.mem_parts_of_mem_usedParts hq)
  rw [allHappenings_of_expr is (by simp) (by simp) (by simp), traceExpr]
  · rw [used, List.forall_mem_cons] at each
    simp only [List.flatMap_subtype, List.unattach_attach]
    rw [used, usedChildren, List.flatMap_cons, List.flatMap_cons, happenings_append,
      List.flatMap_map, List.flatMap_map, happenings_flatMap]
    refine (each.1 _ rfl _ _ _ sees).append (List.Perm.flatMap_left _ fun a ha => ?_)
    exact each.2 _ (List.mem_map_of_mem ha) _ rfl _ _ _ sees
  all_goals simp

/-- An expression that opens no scope and puts what is in it to no use of note. -/
lemma plain_follows {e : Expr} (is : n.expr? = some e)
    (notName : ∀ m id ctx, e ≠ .name m id ctx) (notLambda : ∀ m ps b, e ≠ .lambda m ps b)
    (notComprehension : ∀ m k x v gs, e ≠ .comprehension m k x v gs)
    (children : ∀ use, usedChildren use e = e.children.map (Use.plain, ·))
    (traced : ∀ f use, traceExpr f use e
      = (usedChildren use e).attach.flatMap fun c => traceExpr f c.1.1 c.1.2)
    (used : ∀ use scopes, n.usedParts use scopes = (Node.allIn scopes n.parts).map (Use.plain, ·))
    (inside : ∀ c ∈ n.parts, Follows around c) : Follows around n := by
  intro e' is' use scopes f sees
  obtain rfl := Option.some.inj (is.symm.trans is')
  rw [allHappenings_of_expr is notName notLambda notComprehension, used, flatMap_allIn, traced]
  simp only [List.flatMap_subtype, List.unattach_attach]
  rw [children, List.flatMap_map]
  exact exprs_perm sees (Node.map_expr?_parts is) inside

/-- The events of an expression are what happens to names in it. -/
theorem traceExpr_perm (laid : n.Laid) : Follows around n := by
  induction n using Node.induction with
  | step n ih =>
    have inside (c : Node) (hc : c ∈ n.parts) : Follows around c := ih c hc (laid.part hc)
    cases known : n.expr? with
    | none =>
      intro e is
      cases known.symm.trans is
    | some e =>
      have load (is : e.ctx = .load) : n = .read e := eq_read_of_load laid.here.role known is
      cases e with
      | name m id ctx => exact name_follows laid.here.role known
      | named m t value =>
        obtain rfl := load rfl
        exact named_follows laid (inside _ (by simp [Node.parts, Node.ofRead]))
      | lambda m params body =>
        obtain rfl := load rfl
        exact lambda_follows laid inside
      | comprehension m kind element value generators =>
        obtain rfl := load rfl
        exact comprehension_follows inside
      | attr m value member ctx => exact attr_follows known inside
      | call m func args => exact call_follows known inside
      | _ =>
        cases n with
        | read d | target d =>
          obtain rfl := Option.some.inj known
          exact plain_follows known (by simp) (by simp) (by simp) (fun _ => rfl)
            (fun _ _ => by rw [traceExpr] <;> simp) (fun _ _ => rfl) inside
        | stmt s => cases known

/-! ### One statement -/

/-- Names that are stored one after the other. -/
lemma stores_perm {α : Type} (sees : Sees around scopes f) (xs : List α) (name : α → String)
    (span : α → Span) :
    (happenings (xs.flatMap fun x => f.store (name x) (span x))).Perm
      ((xs.map name).map (.bound (innermost (Node.layersOf around scopes)))
        ++ xs.map fun x => .mentioned (name x) (span x) false .plain
          (Node.layersOf around scopes)) := by
  rw [happenings_flatMap]
  induction xs with
  | nil => exact .refl _
  | cons x xs ih =>
    rw [List.flatMap_cons, happenings_store sees, List.map_cons, List.map_cons, List.map_cons]
    refine (List.Perm.cons _ (ih.cons _)).trans ?_
    exact (List.perm_middle.symm).cons _

/-- What a statement does to names besides its expressions and its bodies. -/
lemma traceOwn_perm {s : Stmt} (sees : Sees around scopes f)
    (noFunction : ∀ d, s ≠ .functionDef d) (noClass : ∀ d, s ≠ .classDef d) :
    (happenings (traceOwn f s)).Perm
      ((Node.stmt s).happenings .plain (Node.layersOf around scopes)) := by
  cases s with
  | functionDef d => exact absurd rfl (noFunction d)
  | classDef d => exact absurd rfl (noClass d)
  | importModules m names =>
    simpa [Node.happenings, Node.opens, Node.parameters, Node.bound, Node.globals, Node.nonlocals,
      Node.mentions, traceOwn] using stores_perm sees names (·.boundName)
        fun a => (a.asname.map (·.span)).getD a.span
  | importFrom m module level names star =>
    simpa [Node.happenings, Node.opens, Node.parameters, Node.bound, Node.globals, Node.nonlocals,
      Node.mentions, traceOwn] using stores_perm sees names (·.boundName)
        fun a => (a.asname.map (·.span)).getD a.span
  | tryBlock m body handlers orelse finalbody =>
    have named := stores_perm sees (handlers.flatMap (·.name.toList)) (·.name) (·.span)
    simpa [Node.happenings, Node.opens, Node.parameters, Node.bound, Node.globals, Node.nonlocals,
      Node.mentions, traceOwn, List.flatMap_assoc, List.map_flatMap, Option.toList_map] using named
  | global m names =>
    simp [Node.happenings, Node.opens, Node.parameters, Node.bound, Node.globals, Node.nonlocals,
      Node.mentions, traceOwn, happenings, Event.happening, ← sees.key, Function.comp_def]
  | nonlocal m names =>
    simp [Node.happenings, Node.opens, Node.parameters, Node.bound, Node.globals, Node.nonlocals,
      Node.mentions, traceOwn, happenings, Event.happening, ← sees.key, Function.comp_def]
  | _ => exact .refl _

/-- A statement that opens no scope. -/
lemma plainStmt_perm {s : Stmt} (laid : (Node.stmt s).Laid) (sees : Sees around scopes f)
    (noFunction : ∀ d, s ≠ .functionDef d) (noClass : ∀ d, s ≠ .classDef d)
    (inside : ∀ c, .stmt c ∈ (Node.stmt s).parts →
      (happenings (traceStmt f c)).Perm ((Node.stmt c).allHappenings around .plain scopes)) :
    (happenings (traceStmt f s)).Perm ((Node.stmt s).allHappenings around .plain scopes) := by
  have traced : traceStmt f s = traceOwn f s ++ s.exprs.flatMap (traceExpr f .plain)
      ++ s.children.flatMap (traceStmt f) := by
    rw [traceStmt]
    · simp only [List.flatMap_subtype, List.unattach_attach]
    · exact noFunction
    · exact noClass
  have used : (Node.stmt s).usedParts .plain scopes
      = (Node.allIn scopes (Node.stmt s).parts).map (Use.plain, ·) := by
    cases s with
    | functionDef d => exact absurd rfl (noFunction d)
    | classDef d => exact absurd rfl (noClass d)
    | _ => rfl
  have parts : (happenings (s.exprs.flatMap (traceExpr f .plain))
      ++ happenings (s.children.flatMap (traceStmt f))).Perm
      ((Node.stmt s).parts.flatMap (Node.allHappenings around .plain scopes)) := by
    rw [← Node.filterMap_expr?_ofStmt, ← Node.filterMap_stmt?_ofStmt, happenings_flatMap,
      happenings_flatMap]
    exact Node.flatMap_perm (fun c hc e is => traceExpr_perm (laid.part hc) e is _ _ _ sees) inside
  rw [Node.allHappenings_eq, used, flatMap_allIn, traced, happenings_append, happenings_append,
    List.append_assoc]
  exact (traceOwn_perm sees noFunction noClass).append parts

/-- Statements that run in the same scopes. -/
lemma stmts_perm (ss : List Stmt)
    (each : ∀ c ∈ ss, (happenings (traceStmt f c)).Perm
      ((Node.stmt c).allHappenings around .plain scopes)) :
    (happenings (ss.flatMap (traceStmt f))).Perm
      ((Node.stmts ss).flatMap (Node.allHappenings around .plain scopes)) := by
  rw [happenings_flatMap, Node.stmts, List.flatMap_map]
  exact List.Perm.flatMap_left ss each

/-- The header of a function or a class, which is evaluated around it. -/
lemma header_perm {s : Stmt} (laid : (Node.stmt s).Laid) (sees : Sees around scopes f)
    (parts : (Node.stmt s).parts = Node.reads s.exprs ++ Node.stmts s.children) :
    (happenings (s.exprs.flatMap (traceExpr f .plain))).Perm
      ((Node.reads s.exprs).flatMap (Node.allHappenings around .plain scopes)) :=
  exprs_perm sees (map_expr?_reads _) fun _ hc =>
    traceExpr_perm (laid.part (parts ▸ List.mem_append_left _ hc))

/-- The events of a function besides its name. -/
lemma traceFunction_perm {d : FunctionDef Stmt} (kind : ScopeKind) (chain : List ScopeLink)
    (report : Option ScopeKey) {body : Frame → List Event}
    (laid : (Node.stmt (.functionDef d)).Laid) (noClass : (kind == .class_) = false)
    (noComprehension : (kind == .comprehension) = false)
    (sees : Sees around scopes ⟨chain, report.getD (.stmt d.mark.serial)⟩)
    (ran : ∀ inner, Sees around (.stmt (.functionDef d) :: scopes) inner →
      (happenings (body inner)).Perm ((Node.stmts d.body).flatMap
        (Node.allHappenings around .plain (.stmt (.functionDef d) :: scopes)))) :
    (happenings (traceFunction d kind chain report body)).Perm
      (.opened (.stmt d.mark.serial)
        :: (d.params.names.map (·.name)).map (.bound (.stmt d.mark.serial))
        ++ ((Node.stmt (.functionDef d)).usedParts .plain scopes).flatMap fun q =>
          q.2.node.allHappenings around q.1 q.2.scopes) := by
  have header := header_perm laid sees rfl
  have entered : Sees around (.stmt (.functionDef d) :: scopes)
      (Frame.enter ⟨chain, report.getD (.stmt d.mark.serial)⟩ (.stmt d.mark.serial) kind) :=
    sees.enter noClass noComprehension
  have surrounded : chain.isEmpty = false := by
    obtain ⟨l, hl, -⟩ := sees.grounded
    exact List.isEmpty_eq_false_iff_exists_mem.2 ⟨l, hl⟩
  rw [traceFunction, surrounded]
  simp only [Bool.false_eq_true, if_false, List.cons_append, happenings_opened,
    happenings_append, happenings_bind, Node.usedParts, Node.expr?_stmt, Node.evaluated,
    List.map_append, List.flatMap_append, flatMap_allIn]
  refine List.Perm.cons _ ((List.perm_append_comm.append_right _).trans ?_)
  rw [List.append_assoc]
  exact (header.append (ran _ entered)).append_left _

/-- The events of a statement are what happens to names in it. -/
theorem traceStmt_perm {s : Stmt} (laid : (Node.stmt s).Laid) (sees : Sees around scopes f) :
    (happenings (traceStmt f s)).Perm ((Node.stmt s).allHappenings around .plain scopes) := by
  generalize same : Node.stmt s = n at laid
  induction n using Node.induction generalizing s scopes f with
  | step n ih =>
    subst same
    have inside (c : Stmt) (hc : .stmt c ∈ (Node.stmt s).parts) {scopes : List Node} {f : Frame}
        (sees : Sees around scopes f) :
        (happenings (traceStmt f c)).Perm ((Node.stmt c).allHappenings around .plain scopes) :=
      ih _ hc sees rfl (laid.part hc)
    cases s with
    | functionDef d =>
      have own : (Node.stmt (.functionDef d)).happenings .plain (Node.layersOf around scopes)
          = .opened (.stmt d.mark.serial)
            :: (d.params.names.map (·.name)).map (.bound (.stmt d.mark.serial))
            ++ happenings (f.store d.name.name d.name.span) := by
        rw [happenings_store sees, Node.happenings]
        simp only [List.append_assoc]
        rfl
      have ran (inner : Frame) (sees : Sees around (.stmt (.functionDef d) :: scopes) inner) :=
        stmts_perm d.body fun c hc => inside c
          (List.mem_append_right _ (List.mem_map_of_mem hc)) sees
      have traced := traceFunction_perm .function f.chain (some f.report) laid rfl rfl sees ran
      rw [Node.allHappenings_eq, own, traceStmt, happenings_append]
      simp only [List.flatMap_subtype, List.unattach_attach]
      refine (traced.append_left _).trans ?_
      rw [← List.append_assoc]
      exact List.perm_append_comm.append_right _
    | classDef d =>
      have own : (Node.stmt (.classDef d)).happenings .plain (Node.layersOf around scopes)
          = .opened (.stmt d.mark.serial) :: happenings (f.store d.name.name d.name.span) := by
        rw [happenings_store sees]
        rfl
      have entered : Sees around (.stmt (.classDef d) :: scopes)
          (f.enter (.stmt d.mark.serial) .class_) := sees.enter rfl rfl
      have ran := stmts_perm d.body fun c hc => inside c
        (List.mem_append_right _ (List.mem_map_of_mem hc)) entered
      have header := header_perm laid sees rfl
      rw [Node.allHappenings_eq, own, traceStmt]
      simp only [List.flatMap_subtype, List.unattach_attach, happenings_append,
        happenings_opened, Node.usedParts, Node.expr?_stmt, Node.evaluated,
        List.map_append, List.flatMap_append, flatMap_allIn]
      refine List.perm_middle.trans (List.Perm.cons _ ?_)
      refine (List.perm_append_comm.append_right _).trans ?_
      rw [List.append_assoc]
      exact (header.append ran).append_left _
    | _ =>
      refine plainStmt_perm laid sees ?_ ?_ fun c hc => inside c hc sees
      · rintro d ⟨⟩
      · rintro d ⟨⟩

end Walk

end MethodLift.Scope
