import MethodLift.Proofs.Syntax.Branching
import MethodLift.Proofs.Syntax.Trees

/-!
# Contexts

A name, an attribute, a subscript, a star, a tuple and a list say what they are there for: to be
read, to be assigned to or to be deleted.  They do not know it when they are read.  What stands
before an equals sign looks like any other expression until the sign comes, so a target is read as
something to be read and made a target afterwards, with the elements of its tuples, lists and stars,
but not with what else is inside it.  This is done at a dozen places of the grammar, and once, for a
walrus, the name is a target from the beginning.

The result does not show how it came about (`Module.Exact`).  An expression is there to be assigned
to exactly if it is a target or is reached from one through tuples, lists and stars only, it is
there to be deleted exactly if it is reached so from a target of a `del`, and else it is there to be
read.

The targets are told by the form of the tree alone (`Expr.stored`, `Stmt.stored`, `Stmt.deleted`),
and so is what a node takes for reading (`Expr.reads`, `Stmt.reads`).  That the contexts go with the
form is a property of each node (`Expr.Fitting`, `Stmt.Fitting`), and a tree whose nodes have it is
exact (`Module.exact_of_fitting`): going up from an expression, tuples, lists and stars lead to a
target or to something that is read.
-/

namespace MethodLift.Syntax

/-! ## Targets by the form of the tree -/

namespace Expr

/-- The context that an expression carries, if it is of a kind that carries one. -/
def context? : Expr → Option Context
  | name _ _ c | attr _ _ _ c | subscript _ _ _ c | starred _ _ c | tuple _ _ c _
  | list _ _ c => some c
  | _ => none

/-- The elements that an expression shares its context with. -/
def unpacked : Expr → List Expr
  | starred _ value _ => [value]
  | tuple _ elements .. | list _ elements _ => elements
  | _ => []

/-- The expressions that an expression assigns to. -/
def stored : Expr → List Expr
  | named _ target _ => [target]
  | comprehension _ _ _ _ generators => generators.map (·.target)
  | _ => []

/-- The expressions directly inside an expression that it reads, whatever it is there for itself. -/
def reads : Expr → List Expr
  | starred .. | tuple .. | list .. => []
  | named _ _ value => [value]
  | comprehension _ _ element value generators =>
    element :: value.toList ++ generators.flatMap fun g => g.iter :: g.conditions
  | e => e.children

/-- An expression is reached from another one through tuples, lists and stars only. -/
abbrev Reaches : Expr → Expr → Prop := Relation.ReflTransGen fun e d => d ∈ e.unpacked

/-- What is directly inside an expression is read, assigned to, or shares the context. -/
lemma mem_children_cases {c e : Expr} (h : c ∈ e.children) :
    c ∈ e.reads ∨ c ∈ e.unpacked ∨ c ∈ e.stored := by
  cases e with
  | starred | tuple | list => exact .inr (.inl h)
  | named m target value =>
    rcases List.mem_cons.1 h with rfl | h
    · exact .inr (.inr List.mem_cons_self)
    · exact .inl h
  | comprehension m kind element value generators =>
    rcases List.mem_append.1 h with h | h
    · exact .inl (List.mem_append_left _ h)
    obtain ⟨g, hg, hc⟩ := List.mem_flatMap.1 h
    rcases List.mem_cons.1 hc with rfl | hc
    · exact .inr (.inr (List.mem_map_of_mem hg))
    · exact .inl (List.mem_append_right _ (List.mem_flatMap.2 ⟨g, hg, hc⟩))
  | _ => exact .inl h

lemma mem_children_of_mem_unpacked {c e : Expr} (h : c ∈ e.unpacked) : c ∈ e.children := by
  cases e with
  | starred | tuple | list => exact h
  | _ => nomatch h

lemma mem_children_of_mem_stored {c e : Expr} (h : c ∈ e.stored) : c ∈ e.children := by
  cases e with
  | named =>
    obtain rfl := List.mem_singleton.1 h
    exact List.mem_cons_self
  | comprehension =>
    obtain ⟨g, hg, rfl⟩ := List.mem_map.1 h
    exact List.mem_append_right _ (List.mem_flatMap.2 ⟨g, hg, List.mem_cons_self⟩)
  | _ => nomatch h

lemma context?_of_mem_unpacked {c e : Expr} (h : c ∈ e.unpacked) : e.context? = some e.ctx := by
  cases e with
  | starred | tuple | list => rfl
  | _ => nomatch h

end Expr

namespace Stmt

/-- The expressions that a statement itself assigns to. -/
def stored : Stmt → List Expr
  | assign _ targets _ => targets
  | augAssign _ target _ _ | annAssign _ target _ _ | forLoop _ _ target .. => [target]
  | withBlock _ _ items _ => items.flatMap (·.target.toList)
  | _ => []

/-- The expressions that a statement deletes. -/
def deleted : Stmt → List Expr
  | delete _ targets => targets
  | _ => []

/-- The expressions that belong to a statement and that it reads. -/
def reads : Stmt → List Expr
  | delete .. => []
  | assign _ _ value | augAssign _ _ _ value => [value]
  | annAssign _ _ annotation value => annotation :: value.toList
  | forLoop _ _ _ iter _ _ => [iter]
  | withBlock _ _ items _ => items.map (·.context)
  | s => s.exprs

lemma mem_exprs_cases {e : Expr} {s : Stmt} (h : e ∈ s.exprs) :
    e ∈ s.reads ∨ e ∈ s.stored ∨ e ∈ s.deleted := by
  cases s with
  | delete => exact .inr (.inr h)
  | assign =>
    rcases List.mem_append.1 h with h | h
    · exact .inr (.inl h)
    · exact .inl h
  | augAssign | annAssign | forLoop =>
    rcases List.mem_cons.1 h with rfl | h
    · exact .inr (.inl List.mem_cons_self)
    · exact .inl h
  | withBlock m isAsync items body =>
    obtain ⟨item, hi, he⟩ := List.mem_flatMap.1 h
    rcases List.mem_cons.1 he with rfl | he
    · exact .inl (List.mem_map_of_mem hi)
    · exact .inr (.inl (List.mem_flatMap.2 ⟨item, hi, he⟩))
  | _ => exact .inl h

end Stmt

namespace Module

/-- The targets that are assigned to anywhere in a module. -/
def stored (m : Module) : List Expr :=
  m.reachableStmts.flatMap Stmt.stored ++ m.reachableExprs.flatMap Expr.stored

/-- The targets of every `del` of a module. -/
def deleted (m : Module) : List Expr := m.reachableStmts.flatMap Stmt.deleted

end Module

/-! ## Contexts that go with the form -/

namespace Expr

variable {e d : Expr} {ctx : Context}

/-- An expression that carries no other context than a given one. -/
def Is (ctx : Context) (e : Expr) : Prop := ∀ c ∈ e.context?, c = ctx

/-- What an assignment expression assigns to is a name. -/
def NamesTarget : Expr → Prop
  | named _ target _ => ∃ m id ctx, target = .name m id ctx
  | _ => True

/-- A node whose children have the contexts that their places ask for. -/
structure Fitting (e : Expr) : Prop where
  reads : ∀ c ∈ e.reads, c.Is .load
  unpacked : ∀ c ∈ e.unpacked, c.Is e.ctx
  stored : ∀ c ∈ e.stored, c.Is .store
  namesTarget : e.NamesTarget

/-- An expression that is there for something, with contexts that fit everywhere in it. -/
structure For (ctx : Context) (e : Expr) : Prop where
  here : e.Is ctx
  inside : e.Everywhere Fitting

lemma Is.of_mem_unpacked (is : e.Is ctx) (fits : e.Fitting) (h : d ∈ e.unpacked) : d.Is ctx :=
  is e.ctx (context?_of_mem_unpacked h) ▸ fits.unpacked d h

lemma For.of_mem_unpacked (h : e.For ctx) (hd : d ∈ e.unpacked) : d.For ctx :=
  ⟨h.here.of_mem_unpacked h.inside.here hd, h.inside.child (mem_children_of_mem_unpacked hd)⟩

/-- What is reached from an expression through tuples, lists and stars has its context. -/
theorem For.reaches (h : e.For ctx) (reached : e.Reaches d) : d.For ctx := by
  induction reached with
  | refl => exact h
  | tail _ element ih => exact ih.of_mem_unpacked element

/-- A node of an expression, by what is directly inside it. -/
lemma For.node (here : e.context?.getD ctx = ctx) (reads : ∀ c ∈ e.reads, c.For .load)
    (unpacked : ∀ c ∈ e.unpacked, c.For ctx) (stored : ∀ c ∈ e.stored, c.For .store)
    (namesTarget : e.NamesTarget := by trivial) : e.For ctx := by
  have is : e.Is ctx := fun c hc => by rwa [Option.mem_def.1 hc, Option.getD_some] at here
  refine ⟨is, .node ⟨fun c hc => (reads c hc).here, fun c hc => ?_, fun c hc =>
    (stored c hc).here, namesTarget⟩ fun c hc => ?_⟩
  · exact is _ (context?_of_mem_unpacked hc) ▸ (unpacked c hc).here
  · rcases mem_children_cases hc with hc | hc | hc
    · exact (reads c hc).inside
    · exact (unpacked c hc).inside
    · exact (stored c hc).inside

/-- A node that only reads what is inside it. -/
lemma For.reading (here : e.context?.getD ctx = ctx) (unpacked : e.unpacked = [])
    (stored : e.stored = []) (reads : ∀ c ∈ e.reads, c.For .load) : e.For ctx := by
  refine .node here reads (unpacked ▸ nofun) (stored ▸ nofun) ?_
  cases e with
  | named => nomatch stored
  | _ => trivial

/-- Another span changes no context. -/
lemma For.withSpan (h : e.For ctx) (s : Span) : (e.withSpan s).For ctx := by
  obtain ⟨here, ⟨⟨reads, unpacked, stored, namesTarget⟩, inside⟩⟩ := h
  cases e <;> exact ⟨here, .node ⟨reads, unpacked, stored, namesTarget⟩ inside⟩

/-- A target and its elements have the new context; the rest of it is as it was. -/
theorem for_retarget (h : e.Everywhere Fitting) : (e.retarget ctx).For ctx := by
  have read {e c : Expr} (h : e.Everywhere Fitting) (hc : c ∈ e.children) (hr : c ∈ e.reads) :
      c.For .load := ⟨h.here.reads c hr, h.child hc⟩
  have elements {es : List Expr} (ih : ∀ e ∈ es, e.Everywhere Fitting → (e.retarget ctx).For ctx)
      (h : ∀ e ∈ es, e.Everywhere Fitting) : ∀ c ∈ es.map (·.retarget ctx), c.For ctx :=
    List.forall_mem_map.2 fun e he => ih e he (h e he)
  fun_induction Expr.retarget ctx e with
  | case1 m id _ => exact .reading rfl rfl rfl (List.forall_mem_nil _)
  | case2 m value ident _ => exact .reading rfl rfl rfl fun c hc => read h hc hc
  | case3 m value index _ => exact .reading rfl rfl rfl fun c hc => read h hc hc
  | case4 m value _ ih =>
    have inner := ih (h.child (List.mem_singleton.2 rfl))
    exact .node rfl (List.forall_mem_nil _) (List.forall_mem_singleton.2 inner)
      (List.forall_mem_nil _)
  | case5 m es _ parenthesized ih =>
    exact .node rfl (List.forall_mem_nil _) (elements ih fun e he => h.child he)
      (List.forall_mem_nil _)
  | case6 m es _ ih =>
    exact .node rfl (List.forall_mem_nil _) (elements ih fun e he => h.child he)
      (List.forall_mem_nil _)
  | case7 e noName noAttr noSubscript noStarred noTuple noList =>
    have noContext : e.context? = none := by
      cases e with
      | name => exact (noName _ _ _ rfl).elim
      | attr => exact (noAttr _ _ _ _ rfl).elim
      | subscript => exact (noSubscript _ _ _ _ rfl).elim
      | starred => exact (noStarred _ _ _ rfl).elim
      | tuple => exact (noTuple _ _ _ _ rfl).elim
      | list => exact (noList _ _ _ rfl).elim
      | _ => rfl
    refine ⟨fun c hc => ?_, h⟩
    rw [noContext] at hc
    cases hc

end Expr

namespace Stmt

/-- A statement whose own expressions are there for what their places ask for. -/
structure Fitting (s : Stmt) : Prop where
  reads : ∀ e ∈ s.reads, e.For .load
  stored : ∀ e ∈ s.stored, e.For .store
  deleted : ∀ e ∈ s.deleted, e.For .del

end Stmt

/-- Whatever an expression of a fitting statement is there for, it fits everywhere in it. -/
lemma Stmt.Fitting.everywhere {s : Stmt} {e : Expr} (fits : s.Fitting) (he : e ∈ s.exprs) :
    e.Everywhere Expr.Fitting := by
  rcases Stmt.mem_exprs_cases he with he | he | he
  · exact (fits.reads e he).inside
  · exact (fits.stored e he).inside
  · exact (fits.deleted e he).inside

/-! ## From the form to the targets -/

namespace Module

variable {m : Module} {e d : Expr} {ctx : Context}

lemma exists_root (he : e ∈ m.reachableExprs) :
    ∃ s ∈ m.reachableStmts, ∃ root ∈ s.exprs, e ∈ root.descendants := by
  obtain ⟨s, hs, he⟩ := List.mem_flatMap.1 he
  obtain ⟨root, hr, he⟩ := List.mem_flatMap.1 he
  exact ⟨s, hs, root, hr, he⟩

lemma mem_reachableExprs {s : Stmt} (hs : s ∈ m.reachableStmts) {root : Expr}
    (hr : root ∈ s.exprs) (he : e ∈ root.descendants) : e ∈ m.reachableExprs :=
  List.mem_flatMap.2 ⟨s, hs, List.mem_flatMap.2 ⟨root, hr, he⟩⟩

lemma child_mem_reachableExprs (he : e ∈ m.reachableExprs) (hd : d ∈ e.children) :
    d ∈ m.reachableExprs := by
  obtain ⟨s, hs, root, hr, he⟩ := exists_root he
  exact mem_reachableExprs hs hr (Expr.branching.child_mem_descendants he hd)

/-- Where the context of an expression comes from: it is read, or it is reached from a target. -/
def Explained (m : Module) (e : Expr) : Prop :=
  e.Is .load ∨ (∃ t ∈ m.stored, t.Reaches e) ∨ ∃ t ∈ m.deleted, t.Reaches e

lemma Explained.child (h : m.Explained e) (fits : e.Fitting) (inTree : e ∈ m.reachableExprs)
    (hd : d ∈ e.children) : m.Explained d := by
  rcases Expr.mem_children_cases hd with hd | hd | hd
  · exact .inl (fits.reads d hd)
  · rcases h with is | ⟨t, ht, reached⟩ | ⟨t, ht, reached⟩
    · exact .inl (is.of_mem_unpacked fits hd)
    · exact .inr (.inl ⟨t, ht, reached.tail hd⟩)
    · exact .inr (.inr ⟨t, ht, reached.tail hd⟩)
  · have target : d ∈ m.stored :=
      List.mem_append_right _ (List.mem_flatMap.2 ⟨e, inTree, hd⟩)
    exact .inr (.inl ⟨d, target, .refl⟩)

lemma explained_of_mem_exprs {s : Stmt} (fits : s.Fitting) (hs : s ∈ m.reachableStmts)
    (he : e ∈ s.exprs) : m.Explained e := by
  rcases Stmt.mem_exprs_cases he with he | he | he
  · exact .inl (fits.reads e he).here
  · have target : e ∈ m.stored := List.mem_append_left _ (List.mem_flatMap.2 ⟨s, hs, he⟩)
    exact .inr (.inl ⟨e, target, .refl⟩)
  · have target : e ∈ m.deleted := List.mem_flatMap.2 ⟨s, hs, he⟩
    exact .inr (.inr ⟨e, target, .refl⟩)

/-- The explanation goes down the tree. -/
lemma Explained.descendant (h : m.Explained e) (fits : e.Everywhere Expr.Fitting)
    (inTree : e ∈ m.reachableExprs) (hd : d ∈ e.descendants) : m.Explained d := by
  induction fits with
  | @node e here inside ih =>
    rcases Expr.branching.mem_descendants.1 hd with rfl | ⟨c, hc, hd⟩
    · exact h
    · exact ih c hc (h.child here inTree hc) (child_mem_reachableExprs inTree hc) hd

section

variable (fits : ∀ s ∈ m.body, s.Everywhere Stmt.Fitting)
include fits

lemma fitting_of_mem_reachableStmts {s : Stmt} (hs : s ∈ m.reachableStmts) : s.Fitting := by
  obtain ⟨top, ht, hs⟩ := List.mem_flatMap.1 hs
  exact ((fits top ht).descendant hs).here

lemma everywhere_of_mem_reachableExprs (he : e ∈ m.reachableExprs) :
    e.Everywhere Expr.Fitting := by
  obtain ⟨s, hs, root, hr, he⟩ := exists_root he
  exact ((fitting_of_mem_reachableStmts fits hs).everywhere hr).descendant he

lemma for_store_of_mem_stored (he : e ∈ m.stored) : e.For .store := by
  rcases List.mem_append.1 he with he | he
  · obtain ⟨s, hs, he⟩ := List.mem_flatMap.1 he
    exact (fitting_of_mem_reachableStmts fits hs).stored e he
  · obtain ⟨p, hp, he⟩ := List.mem_flatMap.1 he
    have around := everywhere_of_mem_reachableExprs fits hp
    exact ⟨around.here.stored e he, around.child (Expr.mem_children_of_mem_stored he)⟩

lemma for_del_of_mem_deleted (he : e ∈ m.deleted) : e.For .del := by
  obtain ⟨s, hs, he⟩ := List.mem_flatMap.1 he
  exact (fitting_of_mem_reachableStmts fits hs).deleted e he

lemma explained_of_mem_reachableExprs (he : e ∈ m.reachableExprs) : m.Explained e := by
  obtain ⟨s, hs, root, hr, he⟩ := exists_root he
  have here := fitting_of_mem_reachableStmts fits hs
  have inTree : root ∈ m.reachableExprs :=
    mem_reachableExprs hs hr (Expr.branching.mem_descendants.2 (.inl rfl))
  exact (explained_of_mem_exprs here hs hr).descendant (here.everywhere hr) inTree he

end

/-- The context of an expression is the one that its place in a module asks for, and what it reads
is there to be read. -/
structure Exact (m : Module) (e : Expr) (ctx : Context) : Prop where
  store : ctx = .store ↔ ∃ t ∈ m.stored, t.Reaches e
  del : ctx = .del ↔ ∃ t ∈ m.deleted, t.Reaches e
  load : ctx = .load ↔ (∀ t ∈ m.stored, ¬t.Reaches e) ∧ ∀ t ∈ m.deleted, ¬t.Reaches e
  reads : ∀ c ∈ e.reads, c.Is .load

/-- Where the statements fit, so do the contexts. -/
theorem exact_of_fitting (fits : ∀ s ∈ m.body, s.Everywhere Stmt.Fitting)
    (he : e ∈ m.reachableExprs) (carries : e.context? = some ctx) : m.Exact e ctx := by
  have stored (h : ∃ t ∈ m.stored, t.Reaches e) : ctx = .store := by
    obtain ⟨t, ht, reached⟩ := h
    exact ((for_store_of_mem_stored fits ht).reaches reached).here ctx carries
  have deleted (h : ∃ t ∈ m.deleted, t.Reaches e) : ctx = .del := by
    obtain ⟨t, ht, reached⟩ := h
    exact ((for_del_of_mem_deleted fits ht).reaches reached).here ctx carries
  have reads := (everywhere_of_mem_reachableExprs fits he).here.reads
  rcases explained_of_mem_reachableExprs fits he with is | reached | reached
  · obtain rfl := is ctx carries
    have unstored : ¬∃ t ∈ m.stored, t.Reaches e := fun h => nomatch stored h
    have undeleted : ¬∃ t ∈ m.deleted, t.Reaches e := fun h => nomatch deleted h
    refine ⟨⟨nofun, fun h => (unstored h).elim⟩, ⟨nofun, fun h => (undeleted h).elim⟩,
      ⟨fun _ => ⟨?_, ?_⟩, fun _ => rfl⟩, reads⟩
    · exact fun t ht reached => unstored ⟨t, ht, reached⟩
    · exact fun t ht reached => undeleted ⟨t, ht, reached⟩
  · obtain rfl := stored reached
    refine ⟨⟨fun _ => reached, fun _ => rfl⟩, ⟨nofun, deleted⟩, ⟨nofun, fun h => ?_⟩, reads⟩
    obtain ⟨t, ht, reached⟩ := reached
    exact absurd reached (h.1 t ht)
  · obtain rfl := deleted reached
    refine ⟨⟨nofun, stored⟩, ⟨fun _ => reached, fun _ => rfl⟩, ⟨nofun, fun h => ?_⟩, reads⟩
    obtain ⟨t, ht, reached⟩ := reached
    exact absurd reached (h.2 t ht)

end Module

end MethodLift.Syntax
