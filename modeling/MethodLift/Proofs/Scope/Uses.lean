import MethodLift.Proofs.Scope.Walk
import MethodLift.Proofs.Text.Spans

/-!
# What a tree does with its names

Each name of a tree is put to one use.  If the use is that an attribute is taken of it, then the
attribute is what directly contains the name; accesses of this kind lie apart, since a name stands
in one of them only; and an access that no call is made through is the callee of no call.
-/

namespace MethodLift

namespace Scope

/-- The access that a mention of a name is part of. -/
def Use.access? : Use → Option Span
  | .object _ _ access _ => some access
  | _ => none

def Happening.access? : Happening → Option Span
  | .mentioned _ _ _ use _ => use.access?
  | _ => none

/-- The scope that opens. -/
def Happening.opened? : Happening → Option ScopeKey
  | .opened key => some key
  | _ => none

lemma filterMap_map_eq_nil {α β : Type} {f : Happening → Option β} {g : α → Happening}
    (xs : List α) (silent : ∀ x, f (g x) = none) : (xs.map g).filterMap f = [] := by
  rw [List.filterMap_map]
  exact List.filterMap_eq_nil_iff.2 fun x _ => silent x

end Scope

namespace Syntax

open Scope (Layer Use Happening ScopeKey)

namespace Node

variable {n : Node} {use : Use} {scopes : List Node}

/-- Going by uses meets each node once. -/
theorem map_node_usedFrom (use : Use) (scopes : List Node) (n : Node) :
    (n.usedFrom use scopes).map (·.2.node) = n.all := by
  induction n using Node.induction generalizing use scopes with
  | step n ih =>
    rw [usedFrom_eq, all_eq, List.map_cons, List.map_flatMap, ← map_node_evaluated scopes,
      ← map_snd_usedParts use, List.map_map, List.flatMap_map]
    congr 1
    refine List.flatMap_congr fun q hq => ?_
    exact ih q.2.node (mem_parts_of_mem_usedParts hq) q.1 q.2.scopes

lemma mem_all_of_mem_usedFrom {x : Use × ScopedNode} (h : x ∈ n.usedFrom use scopes) :
    x.2.node ∈ n.all := map_node_usedFrom use scopes n ▸ List.mem_map_of_mem h

/-- All but the first node are parts of another one. -/
lemma exists_user {x : Use × ScopedNode} (h : x ∈ n.usedFrom use scopes) :
    x = (use, ⟨scopes, n⟩)
      ∨ ∃ y ∈ n.usedFrom use scopes, x ∈ y.2.node.usedParts y.1 y.2.scopes := by
  induction n using Node.induction generalizing use scopes with
  | step n ih =>
    rw [usedFrom_eq, List.mem_cons, List.mem_flatMap] at h
    rcases h with rfl | ⟨q, hq, h⟩
    · exact .inl rfl
    right
    rw [usedFrom_eq]
    rcases ih q.2.node (mem_parts_of_mem_usedParts hq) h with rfl | ⟨y, hy, h⟩
    · exact ⟨_, List.mem_cons_self, hq⟩
    · exact ⟨y, List.mem_cons_of_mem _ (List.mem_flatMap.2 ⟨q, hq, hy⟩), h⟩

/-- What an attribute is taken of is the one part of the attribute. -/
lemma eq_of_object {x : ScopedNode} {member : Ident} {ctx : Context} {access : Span}
    {called : Bool} (h : (.object member ctx access called, x) ∈ n.usedParts use scopes) :
    ∃ m value, n.expr? = some (.attr m value member ctx) ∧ m.span = access
      ∧ called = use.calls ∧ x = ⟨scopes, .read value⟩ := by
  unfold usedParts at h
  split at h
  next m value member' ctx' is =>
    obtain ⟨same, rfl⟩ := Prod.mk.inj (List.mem_singleton.1 h)
    obtain ⟨rfl, rfl, rfl, rfl⟩ := Use.object.inj same
    exact ⟨m, value, is, rfl, rfl, rfl⟩
  · rcases List.mem_cons.1 h with same | h
    · nomatch (Prod.mk.inj same).1
    · obtain ⟨a, -, same⟩ := List.mem_map.1 h
      nomatch (Prod.mk.inj same).1
  · obtain ⟨p, -, same⟩ := List.mem_map.1 h
    nomatch (Prod.mk.inj same).1

/-- The access that a node is the object of, if it is a name. -/
def accessOf? (x : Use × ScopedNode) : Option Span :=
  match x.2.node with
  | read (.name ..) | target (.name ..) => x.1.access?
  | _ => none

lemma filterMap_access?_happenings (layers : List Layer) (x : Use × ScopedNode) :
    (x.2.node.happenings x.1 layers).filterMap Happening.access? = (accessOf? x).toList := by
  obtain ⟨use, ⟨scopes, n⟩⟩ := x
  have mentioned : (n.mentions use layers).filterMap Happening.access?
      = (accessOf? (use, ⟨scopes, n⟩)).toList := by
    cases n with
    | read e => cases e <;> rfl
    | target e => cases e <;> rfl
    | stmt s =>
      cases s with
      | importModules | importFrom => exact Scope.filterMap_map_eq_nil _ fun _ => rfl
      | tryBlock m body handlers orelse finalbody =>
        rw [mentions, List.filterMap_flatMap]
        exact List.flatMap_eq_nil_iff.2 fun h _ =>
          Scope.filterMap_map_eq_nil _ fun _ => rfl
      | _ => rfl
  rw [happenings]
  simp only [List.filterMap_append, mentioned]
  rw [Scope.filterMap_map_eq_nil _ fun _ => rfl, Scope.filterMap_map_eq_nil _ fun _ => rfl,
    Scope.filterMap_map_eq_nil _ fun _ => rfl, Scope.filterMap_map_eq_nil _ fun _ => rfl,
    Scope.filterMap_map_eq_nil _ fun _ => rfl]
  rfl

lemma filterMap_opened?_happenings (use : Use) (layers : List Layer) (n : Node) :
    (n.happenings use layers).filterMap Happening.opened? = n.opens := by
  have mentioned : (n.mentions use layers).filterMap Happening.opened? = [] := by
    cases n with
    | read e => cases e <;> rfl
    | target e => cases e <;> rfl
    | stmt s =>
      cases s with
      | importModules | importFrom => exact Scope.filterMap_map_eq_nil _ fun _ => rfl
      | tryBlock m body handlers orelse finalbody =>
        rw [mentions, List.filterMap_flatMap]
        exact List.flatMap_eq_nil_iff.2 fun h _ => Scope.filterMap_map_eq_nil _ fun _ => rfl
      | _ => rfl
  rw [happenings]
  simp only [List.filterMap_append, mentioned]
  rw [Scope.filterMap_map_eq_nil n.parameters fun _ => rfl,
    Scope.filterMap_map_eq_nil n.bound fun _ => rfl,
    Scope.filterMap_map_eq_nil n.globals fun _ => rfl,
    Scope.filterMap_map_eq_nil n.nonlocals fun _ => rfl, List.filterMap_map]
  simp [Function.comp_def, Happening.opened?]

/-- Mentions are mentions. -/
lemma mem_mentions_of_mem_happenings {layers layers' : List Layer} {name : String} {span : Span}
    {loads : Bool} {use use' : Use}
    (h : .mentioned name span loads use' layers' ∈ n.happenings use layers) :
    .mentioned name span loads use' layers' ∈ n.mentions use layers := by
  simpa [happenings] using h

/-- A name that is mentioned in an access. -/
lemma accessOf?_of_mem_mentions {layers layers' : List Layer} {name : String} {span access : Span}
    {loads : Bool} {use : Use} {x : Use × ScopedNode}
    (h : .mentioned name span loads use layers' ∈ x.2.node.mentions x.1 layers)
    (is : use.access? = some access) :
    accessOf? x = some access ∧ x.1 = use ∧ x.2.node.span = span := by
  obtain ⟨used, ⟨scopes, n⟩⟩ := x
  have plain (same : use = .plain) : accessOf? (used, ⟨scopes, n⟩) = some access ∧ used = use
      ∧ n.span = span := by
    rw [same] at is
    nomatch is
  cases n with
  | read e | target e =>
    cases e with
    | name m id c =>
      obtain ⟨-, rfl, -, rfl, -⟩ := Happening.mentioned.inj (List.mem_singleton.1 h)
      exact ⟨is, rfl, rfl⟩
    | _ => nomatch h
  | stmt s =>
    cases s with
    | functionDef d | classDef d =>
      obtain ⟨-, -, -, same, -⟩ := Happening.mentioned.inj (List.mem_singleton.1 h)
      exact plain same
    | importModules | importFrom =>
      obtain ⟨a, -, same⟩ := List.mem_map.1 h
      exact plain (Happening.mentioned.inj same).2.2.2.1.symm
    | tryBlock m body handlers orelse finalbody =>
      obtain ⟨handler, -, h⟩ := List.mem_flatMap.1 h
      obtain ⟨a, -, same⟩ := List.mem_map.1 h
      exact plain (Happening.mentioned.inj same).2.2.2.1.symm
    | _ => nomatch h

/-- The accesses in a tree. -/
lemma filterMap_access?_allHappenings (around : List Scope.ScopeLink) (use : Use)
    (scopes : List Node) (n : Node) :
    (n.allHappenings around use scopes).filterMap Happening.access?
      = (n.usedFrom use scopes).filterMap accessOf? := by
  rw [allHappenings, List.filterMap_flatMap, List.filterMap_eq_flatMap_toList]
  exact List.flatMap_congr fun x _ => filterMap_access?_happenings _ x

/-- The scopes that open in a tree. -/
lemma filterMap_opened?_allHappenings (around : List Scope.ScopeLink) (use : Use)
    (scopes : List Node) (n : Node) :
    (n.allHappenings around use scopes).filterMap Happening.opened? = n.all.flatMap opens := by
  rw [allHappenings, List.filterMap_flatMap, ← map_node_usedFrom use scopes, List.flatMap_map]
  exact List.flatMap_congr fun x _ => filterMap_opened?_happenings _ _ _

lemma opens_sublist (n : Node) : n.opens.Sublist [n.key] := by
  unfold opens
  split
  all_goals first | exact .refl _ | exact List.nil_sublist _

/-- The scopes in a tree have numbers of their own. -/
lemma Laid.opens_nodup {n : Node} (h : n.Laid) : (n.all.flatMap opens).Nodup := by
  refine List.Nodup.sublist ?_ h.keys_nodup
  rw [keys, ← List.flatMap_singleton' (n.all.map key), List.flatMap_map]
  exact List.Sublist.flatMap_right n.all fun x _ => opens_sublist x

/-- What stands in an access is a name, and the access is what contains it. -/
lemma exists_access {s : Stmt} {x : Use × ScopedNode} {access : Span}
    (hx : x ∈ (stmt s).usedFrom .plain []) (is : accessOf? x = some access) :
    ∃ y ∈ (stmt s).usedFrom .plain [], ∃ mark value member ctx,
      y.2.node.expr? = some (.attr mark value member ctx) ∧ mark.span = access
        ∧ x.1 = .object member ctx access y.1.calls ∧ x.2.node = .read value
        ∧ x.2.node ∈ y.2.node.parts ∧ ∃ m id c, value = .name m id c := by
  have name : ∃ e, x.2.node.expr? = some e ∧ (∃ m id c, e = .name m id c)
      ∧ x.1.access? = some access := by
    unfold accessOf? at is
    split at is
    next m id c node => exact ⟨_, by rw [node]; rfl, ⟨m, id, c, rfl⟩, is⟩
    next m id c node => exact ⟨_, by rw [node]; rfl, ⟨m, id, c, rfl⟩, is⟩
    · nomatch is
  obtain ⟨e, isExpr, isName, used⟩ := name
  obtain ⟨member, ctx, called, object⟩ :
      ∃ member ctx called, x.1 = .object member ctx access called := by
    unfold Use.access? at used
    split at used
    next member ctx access' called same =>
      obtain rfl := Option.some.inj used
      exact ⟨member, ctx, called, same⟩
    · nomatch used
  rcases exists_user hx with rfl | ⟨y, hy, part⟩
  · nomatch object
  obtain ⟨x₁, x₂⟩ := x
  obtain rfl : x₁ = _ := object
  obtain ⟨mark, value, isAttr, span, rfl, rfl⟩ := eq_of_object part
  obtain rfl := Option.some.inj isExpr
  exact ⟨y, hy, mark, value, member, ctx, isAttr, span, rfl, rfl,
    mem_parts_of_mem_usedParts part, isName⟩

/-- Of accesses to names none contains another one. -/
lemma key_eq_of_mem_all {p q x y : Node} {mark mark' : Mark} {value value' : Expr}
    {member member' : Ident} {ctx ctx' : Context}
    (isP : p.expr? = some (.attr mark value member ctx))
    (isQ : q.expr? = some (.attr mark' value' member' ctx'))
    (isName : ∃ m id c, value = .name m id c) (into : q ∈ p.all) (isX : x = .read value)
    (isY : y = .read value') : x.key = y.key := by
  obtain ⟨m, id, c, rfl⟩ := isName
  rcases mem_all.1 into with rfl | ⟨d, hd, into⟩
  · obtain ⟨-, rfl, -⟩ := Expr.attr.inj (Option.some.inj (isP.symm.trans isQ))
    rw [isX, isY]
  obtain ⟨e, he, isD⟩ := expr?_of_mem_parts isP hd
  obtain rfl := List.mem_singleton.1 he
  rcases mem_all.1 into with rfl | ⟨d', hd', -⟩
  · nomatch isD.symm.trans isQ
  · obtain ⟨e, he, -⟩ := expr?_of_mem_parts isD hd'
    nomatch he

end Node

/-! ## Accesses of a module -/

namespace Module

open Node

variable {m : Module} {s : Stmt} {x : Use × ScopedNode}

lemma mem_nodes_of_mem_usedFrom (hs : s ∈ m.reachableStmts)
    (hx : x ∈ (Node.stmt s).usedFrom .plain []) : x.2.node ∈ m.nodes :=
  mem_nodes_of_mem_all (stmt_mem_nodes.2 hs) (mem_all_of_mem_usedFrom hx)

namespace Laid

variable (h : m.Laid) (hs : s ∈ m.reachableStmts)
include h hs

/-- What the callee of a call is used for. -/
theorem calls_of_callee {y : Use × ScopedNode} {c : Node} {mark : Mark} {func : Expr}
    {args : List (Arg Expr)} (hy : y ∈ (Node.stmt s).usedFrom .plain [])
    (hc : c ∈ m.nodes) (isCall : c.expr? = some (.call mark func args))
    (isFunc : y.2.node = .read func) : y.1.calls = true := by
  rcases exists_user hy with rfl | ⟨z, hz, part⟩
  · nomatch isFunc
  have role := (h.node hc).here.role
  obtain rfl := Scope.eq_read_of_load role isCall rfl
  have inCall : Node.read func ∈ (Node.read (.call mark func args)).parts := List.mem_cons_self
  have inUser : Node.read func ∈ z.2.node.parts := isFunc ▸ mem_parts_of_mem_usedParts part
  have same := h.parent_unique (mem_nodes_of_mem_usedFrom hs hz) hc inUser inCall
  rw [same] at part
  rcases List.mem_cons.1 part with rfl | argument
  · rfl
  · -- the callee would be an argument as well
    obtain ⟨a, ha, rfl⟩ := List.mem_map.1 argument
    have listed : Node.read a.value ∈ reads (args.map (·.value)) :=
      List.mem_map_of_mem (List.mem_map_of_mem ha)
    have apart := (List.pairwise_cons.1 (h.node hc).here.apart).1 _ listed
    have shared : (Node.read func).key ∈ (Node.read a.value).keys := by
      rw [show Node.read a.value = Node.read func from isFunc]
      exact List.mem_map_of_mem (self_mem_all _)
    exact absurd shared (apart.disjoint (List.mem_map_of_mem (self_mem_all _)))

/-- Accesses lie apart. -/
theorem accesses_apart :
    (((Node.stmt s).usedFrom .plain []).filterMap accessOf?).Pairwise Span.Apart := by
  have keys : (((Node.stmt s).usedFrom .plain []).map (·.2.node.key)).Nodup := by
    have nodup := (h.node (stmt_mem_nodes.2 hs)).keys_nodup
    rw [keys, ← map_node_usedFrom .plain [], List.map_map] at nodup
    exact nodup
  rw [List.pairwise_filterMap]
  refine (List.pairwise_map.1 keys).imp_of_mem ?_
  intro x y hx hy other a isA b isB
  obtain ⟨p, hp, mark, value, member, ctx, isP, rfl, -, inP, -, name⟩ := exists_access hx isA
  obtain ⟨q, hq, mark', value', member', ctx', isQ, rfl, -, inQ, -, name'⟩ := exists_access hy isB
  have hp := mem_nodes_of_mem_usedFrom hs hp
  have hq := mem_nodes_of_mem_usedFrom hs hq
  rcases h.nested_or_apart hp hq with (into | into) | apart
  · exact absurd (key_eq_of_mem_all isP isQ name into inP inQ) other
  · exact absurd (key_eq_of_mem_all isQ isP name' into inQ inP).symm other
  · rwa [span_of_expr? isP, span_of_expr? isQ] at apart

end Laid

end Module

end Syntax

end MethodLift
