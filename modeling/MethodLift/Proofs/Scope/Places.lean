import MethodLift.Proofs.Lift.Computing
import MethodLift.Proofs.Syntax.Nodes

/-!
# Which scopes a node is evaluated in

The rules of scoping, said of a tree as a whole rather than as a walk through it.  Each node goes
with the scopes that it is evaluated in, the innermost first, where a scope is the function, the
class, the lambda or the comprehension that opens it.  What stands in a header (decorators, defaults,
annotations, bases, the first iterable of a comprehension) is evaluated around the scope, and the
target of an assignment expression in the nearest scope that is no comprehension.

A scope binds its parameters and what the nodes that are evaluated directly in it bind, and it may
declare that a name belongs elsewhere.  From this follows what a name means in a chain of scopes
(`meaning`): the innermost scope that binds it, where class bodies are only seen by what is evaluated
directly in them, or no scope of the tree.  Two things go by other rules.  The name of a new function
may belong to a lambda where the function is called (`shadowed_by_assignment_in_lambda`), and the
instance of a method may be declared nonlocal in it (`instance_declared_nonlocal`).
-/

namespace MethodLift

namespace Syntax

/-- A node and the scopes that it is evaluated in, the innermost first. -/
structure ScopedNode where
  scopes : List Node
  node : Node
deriving Inhabited

namespace Node

/-! ## Scopes -/

def isComprehension : Node → Bool
  | read (.comprehension ..) => true
  | _ => false

def isClass : Node → Bool
  | stmt (.classDef _) => true
  | _ => false

/-- The names that a scope binds before anything in it is evaluated. -/
def parameters : Node → List String
  | stmt (.functionDef d) => d.params.names.map (·.name)
  | read (.lambda _ params _) => params.names.map (·.name)
  | _ => []

/-- The names that a node itself binds where it is evaluated. -/
def bound : Node → List String
  | target (.name _ id _) => [id]
  | stmt (.functionDef d) => [d.name.name]
  | stmt (.classDef d) => [d.name.name]
  | stmt (.importModules _ names) | stmt (.importFrom _ _ _ names _) => names.map (·.boundName)
  | stmt (.tryBlock _ _ handlers _ _) => handlers.flatMap fun h => (h.name.map (·.name)).toList
  | _ => []

/-- The names that a node declares global where it is evaluated. -/
def globals : Node → List String
  | stmt (.global _ names) => names.map (·.name)
  | _ => []

/-- The names that a node declares nonlocal where it is evaluated. -/
def nonlocals : Node → List String
  | stmt (.nonlocal _ names) => names.map (·.name)
  | _ => []

/-! ## What is evaluated where -/

/-- Nodes that are all evaluated in the same scopes. -/
def allIn (scopes : List Node) (ns : List Node) : List ScopedNode := ns.map (⟨scopes, ·⟩)

/-- The parts of a comprehension's clauses: the first iterable is evaluated around the comprehension,
everything else inside. -/
def clausesScoped (around inner : List Node) : List (Generator Expr) → List ScopedNode
  | [] => []
  | g :: gs =>
    ⟨inner, target g.target⟩ :: ⟨around, read g.iter⟩ ::
      allIn inner (reads g.conditions ++ gs.flatMap ofGenerator)

/-- The parts of a node that is evaluated in the given scopes. -/
def evaluated (scopes : List Node) : Node → List ScopedNode
  | stmt (.functionDef d) =>
    allIn scopes (reads (Stmt.functionDef d).exprs)
      ++ allIn (stmt (.functionDef d) :: scopes) (stmts d.body)
  | stmt (.classDef d) =>
    allIn scopes (reads (Stmt.classDef d).exprs)
      ++ allIn (stmt (.classDef d) :: scopes) (stmts d.body)
  | read (.lambda m params body) =>
    allIn scopes (reads params.exprs) ++ allIn (read (.lambda m params body) :: scopes) [read body]
  | read (.comprehension m kind element value generators) =>
    let inner := read (.comprehension m kind element value generators) :: scopes
    allIn inner (read element :: reads value.toList) ++ clausesScoped scopes inner generators
  | read (.named _ t value) =>
    [⟨scopes.dropWhile isComprehension, target t⟩, ⟨scopes, read value⟩]
  | n => allIn scopes n.parts

@[simp] lemma map_node_allIn (scopes ns : List Node) : (allIn scopes ns).map (·.node) = ns := by
  simp [allIn, Function.comp_def]

lemma map_node_clausesScoped (around inner : List Node) (gs : List (Generator Expr)) :
    (clausesScoped around inner gs).map (·.node) = gs.flatMap ofGenerator := by
  cases gs <;> simp [clausesScoped, ofGenerator]

/-- Evaluation leaves no part of a node out and goes to none twice. -/
theorem map_node_evaluated (scopes : List Node) (n : Node) :
    (n.evaluated scopes).map (·.node) = n.parts := by
  unfold evaluated
  split
  · simp [parts, ofStmt, Stmt.children]
  · simp [parts, ofStmt, Stmt.children]
  · simp [parts, ofRead, Expr.children, reads]
  · simp [parts, ofRead, map_node_clausesScoped]
  · simp [parts, ofRead]
  · simp

lemma mem_parts_of_mem_evaluated {scopes : List Node} {n : Node} {p : ScopedNode}
    (h : p ∈ n.evaluated scopes) : p.node ∈ n.parts :=
  map_node_evaluated scopes n ▸ List.mem_map_of_mem h

/-- A node that is evaluated in the given scopes, and everything inside it. -/
def scopedFrom (scopes : List Node) (n : Node) : List ScopedNode :=
  ⟨scopes, n⟩ :: (n.evaluated scopes).attach.flatMap fun p => scopedFrom p.1.scopes p.1.node
termination_by n.size
decreasing_by exact size_lt_of_mem_parts (mem_parts_of_mem_evaluated p.2)

theorem scopedFrom_eq (scopes : List Node) (n : Node) :
    n.scopedFrom scopes
      = ⟨scopes, n⟩ :: (n.evaluated scopes).flatMap fun p => p.node.scopedFrom p.scopes := by
  rw [scopedFrom]
  congr 1
  conv => rhs; rw [← List.attach_map_subtype_val (n.evaluated scopes), List.flatMap_map]

/-- A node that no scope is around, and everything inside it. -/
def scopedNodes (n : Node) : List ScopedNode := n.scopedFrom []

end Node

/-- Everything in a module. -/
def Module.scopedNodes (m : Module) : List ScopedNode := (Node.stmts m.body).flatMap Node.scopedNodes

/-! ## What names mean -/

namespace ScopedNode

/-- Whether a node is evaluated directly in a scope. -/
def isDirectlyIn (p : ScopedNode) (scope : Node) : Bool := p.scopes.head?.any (·.key == scope.key)

end ScopedNode

variable (ps : List ScopedNode)

/-- Whether a scope declares a name global. -/
def declaresGlobal (scope : Node) (name : String) : Bool :=
  ps.any fun p => p.isDirectlyIn scope && p.node.globals.contains name

/-- Whether a scope declares a name nonlocal. -/
def declaresNonlocal (scope : Node) (name : String) : Bool :=
  ps.any fun p => p.isDirectlyIn scope && p.node.nonlocals.contains name

/-- Whether a name is bound in a scope: as a parameter, or by a node evaluated directly in it. -/
def bindsIn (scope : Node) (name : String) : Bool :=
  scope.parameters.contains name
    || ps.any fun p => p.isDirectlyIn scope && p.node.bound.contains name

/-- What a name means where the scopes of a chain are around but not innermost: the rest of the
chain from the scope on that it belongs to, and nothing if that is none of them. -/
def meaningAround (name : String) : List Node → List Node
  | [] => []
  | scope :: around =>
    if scope.isClass then meaningAround name around
    else if declaresGlobal ps scope name then []
    else if declaresNonlocal ps scope name then meaningAround name around
    else if bindsIn ps scope name then scope :: around
    else meaningAround name around

/-- What a name means in the scopes of a chain: the rest of the chain from the scope on that it
belongs to, and nothing if that is none of them. -/
def meaning (name : String) : List Node → List Node
  | [] => []
  | scope :: around =>
    if declaresGlobal ps scope name then []
    else if !declaresNonlocal ps scope name && bindsIn ps scope name then scope :: around
    else meaningAround ps name around

end Syntax

open Syntax

/-! ## Names that were not looked up -/

/-- Where the calls of a module stand, each with the scope that a name means there, if it is none of
the module's. -/
def meaningsAtCalls (m : Module) (name : String) : List (Span × Option Span) :=
  m.scopedNodes.filterMap fun p => match p.node with
    | .read (.call mark _ _) =>
      some (mark.span, (meaning m.scopedNodes name p.scopes).head?.map (·.span))
    | _ => none

set_option maxRecDepth 100000 in
/-- A lambda binds what an assignment expression in it assigns to, which is not seen: the call
becomes `area()` where `area` is a name of the lambda. -/
theorem shadowed_by_assignment_in_lambda :
    let text := "f = lambda: (area := s.area())\n"
    let m := (parse text).module
    let ctx : CallContext := ⟨"A", "area", [], .positional, "receiver"⟩
    (parse text).problems.isEmpty = true
      ∧ (CallChanges.ofSites m text (CallSite.ofModule "main.py" "area" m) ctx []).toOption.map
        (fun done => (done.changes.map (·.span), done.edits))
        = some ([⟨21, 29⟩], [⟨"main.py", ⟨21, 27⟩, "area"⟩])
      ∧ meaningsAtCalls m "area" = [(⟨21, 29⟩, some ⟨4, 30⟩)] := by
  intro text m ctx
  unfold m text ctx
  refine ⟨?_, ?_, ?_⟩
  · simp only [parseComputed.eq]
    decide +kernel
  · simp only [parseComputed.eq, sitesComputed.eq, CallChanges.ofSitesComputed.eq]
    decide +kernel
  · cbv

/-- The names that a module declares nonlocal, each with the scope around the declaring one that the
name belongs to, if there is one. -/
def nonlocalDeclarations (m : Module) : List (String × Option Span) :=
  m.scopedNodes.flatMap fun p => p.node.nonlocals.map fun name =>
    (name, (meaningAround m.scopedNodes name p.scopes.tail).head?.map (·.span))

set_option maxRecDepth 100000 in
/-- A function in the method may declare the instance nonlocal.  The declaration is not taken for a
mention of the instance: the method is accepted, and in the new function it names nothing. -/
theorem instance_declared_nonlocal :
    let text := "class A:\n def m(s):\n  def g():nonlocal s\n"
    let m := (parse text).module
    (parse text).problems.isEmpty = true
      ∧ m.reachableStmts.filterMap (fun s => s.asFunction.map fun d =>
          (d.name.name, Scope.instanceName d, s.span)) = [("m", "s", ⟨10, 40⟩), ("g", "", ⟨22, 40⟩)]
      ∧ nonlocalDeclarations m = [("s", some ⟨10, 40⟩)]
      ∧ (m.reachableStmts.filter (·.span == ⟨10, 40⟩)).map (fun d =>
          (Safety.validate (Scope.analyze m d)).toOption) = [some []]
      ∧ (LiftPlan.make (Workspace.ofSnapshot (Snapshot.ofList [("a.py", text)]) [])
        ⟨"a.py", "A", "m", "receiver"⟩).toOption.map (·.function.text)
        = some "def m():\n def g():nonlocal s"
      ∧ nonlocalDeclarations (parse "def m():\n def g():nonlocal s").module = [("s", none)] := by
  intro text m
  unfold m text
  refine ⟨?_, ?_, ?_, ?_, ?_, ?_⟩
  · simp only [parseComputed.eq]
    decide +kernel
  · simp only [parseComputed.eq]
    decide +kernel
  · cbv
  · simp only [parseComputed.eq, analyzeComputed.eq]
    decide +kernel
  · simp only [LiftPlan.makeComputed.eq, ofSnapshotComputed.eq]
    decide +kernel
  · cbv

end MethodLift
