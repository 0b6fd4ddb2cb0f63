import MethodLift.Proofs.Lift.Computing
import MethodLift.Proofs.Scope.Frames

/-!
# Methods

A method is a function directly in the body of a class of the tree.  The events of its walk are what
happens to names in it; every scope in it opens once; and the accesses that its references are part
of lie apart from one another.

A method that leaves its class should read the same names from outside as before (`freeNames`).  New
parameters do not interfere, as they are named unlike anything that occurs in the method.  The text
can: a read that stands in parentheses is replaced together with them, and where a word stood directly
before the parentheses, the word and the new name become one (`returned_in_parentheses`).
-/

namespace MethodLift.Syntax.Module

open MethodLift.Scope

variable {m : Module} {s p : Stmt}

/-! ## What is around a statement -/

namespace Laid

variable (h : m.Laid)
include h

lemma parentOfStmt?_eq (hp : p ∈ m.reachableStmts) (hc : s ∈ p.children) :
    m.parentOfStmt? s.serial = some p := by
  have listed : (s.serial, p) ∈ m.stmtParents := mem_stmtParents.2 ⟨hp, s, hc, rfl⟩
  cases found : m.parentOfStmt? s.serial with
  | none =>
    have other := List.lookup_eq_none_iff.1 found _ listed
    simp at other
  | some q =>
    obtain ⟨before, after, parts, -⟩ := List.lookup_eq_some_iff.1 found
    have mem : (s.serial, q) ∈ m.stmtParents := by
      rw [parts]
      exact List.mem_append_right _ List.mem_cons_self
    obtain ⟨hq, c, hc', same⟩ := mem_stmtParents.1 mem
    have inQ := stmt_mem_parts hc'
    have inP := stmt_mem_parts hc
    have hp' := stmt_mem_nodes.2 hp
    have hq' := stmt_mem_nodes.2 hq
    have eq : Node.stmt c = .stmt s := h.eq_of_key (mem_nodes_of_mem_parts hq' inQ)
      (mem_nodes_of_mem_parts hp' inP) (congrArg ScopeKey.stmt same)
    have parents := h.parent_unique hq' hp' (eq ▸ inQ) inP
    rw [Node.stmt.inj parents]

/-- What directly contains a statement comes first among what is around it. -/
lemma stmtAncestors_eq_cons (hp : p ∈ m.reachableStmts) (hc : s ∈ p.children) :
    ∃ rest, m.stmtAncestors s.serial = p :: rest := by
  have listed : (s.serial, p) ∈ m.stmtParents := mem_stmtParents.2 ⟨hp, s, hc, rfl⟩
  unfold stmtAncestors
  cases size : m.stmtParents.length with
  | zero =>
    rw [List.length_eq_zero_iff.1 size] at listed
    nomatch listed
  | succ n =>
    rw [stmtAncestors.go, h.parentOfStmt?_eq hp hc]
    exact ⟨_, rfl⟩

end Laid

end MethodLift.Syntax.Module

namespace MethodLift.Scope

open MethodLift.Syntax

variable {m : Module} {c : ClassDef Stmt} {d : FunctionDef Stmt}

/-- A function directly in the body of a class of a module. -/
structure IsMethod (m : Module) (c : ClassDef Stmt) (d : FunctionDef Stmt) : Prop where
  class_ : .classDef c ∈ m.reachableStmts
  method : .functionDef d ∈ c.body

lemma IsMethod.mem_reachableStmts (h : IsMethod m c d) : .functionDef d ∈ m.reachableStmts :=
  Module.child_mem_reachableStmts h.class_ h.method

/-- The scopes around a method. -/
def around (m : Module) (d : FunctionDef Stmt) : List ScopeLink :=
  (m.stmtAncestors d.mark.serial).filterMap enclosingLink?

/-- The events of the walk through a method. -/
def methodTrace (m : Module) (d : FunctionDef Stmt) : List Event :=
  traceFunction d .method (around m d) none fun inner => d.body.flatMap (traceStmt inner)

lemma methodEvents_eq : methodEvents m d
    = (m.stmtAncestors d.mark.serial).flatMap enclosingEvents ++ methodTrace m d := rfl

lemma of_mem_around {l : ScopeLink} (hl : l ∈ around m d) :
    l.kind ≠ .comprehension ∧ l.own = false := by
  obtain ⟨s, -, is⟩ := List.mem_filterMap.1 hl
  unfold enclosingLink? at is
  split at is
  · obtain rfl := Option.some.inj is
    exact ⟨by simp, rfl⟩
  · obtain rfl := Option.some.inj is
    exact ⟨by simp, rfl⟩
  · cases is

/-- The class is around its method. -/
lemma IsMethod.around_eq_cons (h : IsMethod m c d) (laid : m.Laid) :
    ∃ rest, around m d = ⟨.stmt c.mark.serial, .class_, false⟩ :: rest := by
  obtain ⟨rest, parents⟩ := laid.stmtAncestors_eq_cons h.class_ h.method
  rw [around, show d.mark.serial = (Stmt.functionDef d).serial from rfl, parents]
  exact ⟨_, rfl⟩

/-! ## The walk -/

/-- What defining a method does to its name around it. -/
def naming (m : Module) (d : FunctionDef Stmt) : List Happening :=
  let layers := Node.layersOf (around m d) []
  [.bound (innermost layers) d.name.name, .mentioned d.name.name d.name.span false .plain layers]

section Walk

variable (laid : m.Laid) (h : IsMethod m c d)
include laid h

/-- The frame of a method's header. -/
lemma header_sees : Sees (around m d) [] ⟨around m d, .stmt d.mark.serial⟩ := by
  refine ⟨⟨[], rfl, rfl⟩, fun l hl => (of_mem_around hl).1, ?_⟩
  obtain ⟨rest, around_eq⟩ := h.around_eq_cons laid
  have class_ : (⟨.stmt c.mark.serial, .class_, false⟩ : ScopeLink) ∈ around m d :=
    around_eq ▸ List.mem_cons_self
  exact ⟨_, class_, nofun⟩

/-- The walk through a method, with the method's name given to it around, is what happens to names
in the method's tree. -/
theorem methodTrace_perm : (happenings (methodTrace m d) ++ naming m d).Perm
      ((Node.stmt (.functionDef d)).allHappenings (around m d) .plain []) := by
  have here : (Node.stmt (.functionDef d)).Laid :=
    laid.node (Module.stmt_mem_nodes.2 h.mem_reachableStmts)
  have traced := traceFunction_perm .method (around m d) none here rfl rfl (header_sees laid h)
    fun inner sees => stmts_perm d.body fun s hs => traceStmt_perm
      (here.part (List.mem_append_right _ (List.mem_map_of_mem hs))) sees
  rw [Node.allHappenings_eq]
  refine (traced.append_right _).trans ?_
  have own : (Node.stmt (.functionDef d)).happenings .plain (Node.layersOf (around m d) [])
      = .opened (.stmt d.mark.serial)
        :: (d.params.names.map (·.name)).map (.bound (.stmt d.mark.serial))
        ++ naming m d := by
    rw [Node.happenings]
    simp only [List.append_assoc]
    rfl
  rw [own, List.append_assoc, List.append_assoc]
  exact List.perm_append_comm.append_left _

/-! ## Scopes and references of a method -/

omit laid h in
/-- What the scopes around a method bind is no part of its walk. -/
lemma of_mem_enclosing {e : Event}
    (he : e ∈ (m.stmtAncestors d.mark.serial).flatMap enclosingEvents) :
    (∀ key owner, e ≠ .opened key owner) ∧ ∀ r, e ≠ .referenced r := by
  obtain ⟨s, -, he⟩ := List.mem_flatMap.1 he
  unfold enclosingEvents at he
  split at he
  · nomatch he
  · dsimp only at he
    rw [List.mem_append, List.mem_append, List.mem_map, List.mem_map, List.mem_map] at he
    rcases he with (⟨name, -, rfl⟩ | ⟨name, -, rfl⟩) | ⟨name, -, rfl⟩
    all_goals exact ⟨nofun, nofun⟩

omit laid h in
lemma openedKeys_methodEvents : openedKeys (methodEvents m d) = openedKeys (methodTrace m d) := by
  have none : openedKeys ((m.stmtAncestors d.mark.serial).flatMap enclosingEvents) = [] := by
    refine List.eq_nil_iff_forall_not_mem.2 fun key mem => ?_
    obtain ⟨owner, he⟩ := mem_openedKeys.1 mem
    exact (of_mem_enclosing he).1 key owner rfl
  rw [methodEvents_eq, openedKeys_append, none, List.nil_append]

omit laid h in
lemma references_methodEvents : references (methodEvents m d) = references (methodTrace m d) := by
  have none : references ((m.stmtAncestors d.mark.serial).flatMap enclosingEvents) = [] := by
    refine List.eq_nil_iff_forall_not_mem.2 fun r mem => ?_
    exact (of_mem_enclosing (mem_references.1 mem)).2 r rfl
  rw [methodEvents_eq, references, List.filterMap_append]
  exact congrArg (· ++ _) none

/-- Each scope opens once. -/
theorem openedKeys_nodup : (openedKeys (methodEvents m d)).Nodup := by
  have here := laid.node (Module.stmt_mem_nodes.2 h.mem_reachableStmts)
  have perm := (methodTrace_perm laid h).filterMap Happening.opened?
  rw [Node.filterMap_opened?_allHappenings, List.filterMap_append] at perm
  have keys : (happenings (methodTrace m d)).filterMap Happening.opened?
      = openedKeys (methodEvents m d) := by
    rw [openedKeys_methodEvents, openedKeys, openedScopes, happenings, List.filterMap_map,
      List.map_filterMap]
    exact List.filterMap_congr fun e _ => by cases e <;> rfl
  rw [keys, show (naming m d).filterMap Happening.opened? = [] from rfl, List.append_nil] at perm
  exact perm.nodup_iff.2 here.opens_nodup

omit laid h in
/-- The frames of a method's references belong to scopes that open. -/
theorem references_owned : ∀ r ∈ references (methodEvents m d),
    Owned (openedKeys (methodEvents m d)) r.frame := by
  intro r hr
  rw [references_methodEvents] at hr
  rw [openedKeys_methodEvents]
  have enter : ∀ f key kind, key ∈ openedKeys (methodTrace m d)
      → Owned (openedKeys (methodTrace m d)) f
      → Owned (openedKeys (methodTrace m d)) (f.enter key kind) := fun _ _ _ => Owned.enter
  have walrus : ∀ f, Owned (openedKeys (methodTrace m d)) f
      → Owned (openedKeys (methodTrace m d)) f.forWalrus := fun _ => Owned.forWalrus
  have kept : Keeps (Owned (openedKeys (methodTrace m d))) (openedKeys (methodTrace m d))
      (methodTrace m d) := by
    refine keeps_traceFunction enter walrus (fun mem => ⟨mem, ?_, ?_⟩) fun inner owned =>
      .flatMap fun s _ => keeps_traceStmt enter walrus owned
    · intro l hl own
      exact absurd own (by simp [(of_mem_around hl).2])
    · intro l hl own
      exact absurd own (by simp [(of_mem_around (List.mem_of_mem_head? hl)).2])
  exact kept (fun owner key he => mem_openedKeys.2 ⟨owner, he⟩) r (mem_references.1 hr)

/-- What a reference of a method is in the method's tree. -/
lemma exists_mention {r : Reference} (hr : r ∈ references (methodEvents m d)) :
    ∃ x ∈ (Node.stmt (.functionDef d)).usedFrom .plain [],
      r.happening ∈ x.2.node.mentions x.1 (Node.layersOf (around m d) x.2.scopes) := by
  rw [references_methodEvents, mem_references] at hr
  have traced : r.happening ∈ happenings (methodTrace m d) := List.mem_map.2 ⟨_, hr, rfl⟩
  have mem := (methodTrace_perm laid h).subset (List.mem_append_left _ traced)
  obtain ⟨x, hx, mem⟩ := List.mem_flatMap.1 mem
  exact ⟨x, hx, Node.mem_mentions_of_mem_happenings mem⟩

/-- The accesses that references of a method are part of lie apart. -/
theorem accesses_apart : ((references (methodEvents m d)).filterMap (·.use.access?)).Pairwise
    Span.Apart := by
  have perm := (methodTrace_perm laid h).filterMap Happening.access?
  rw [Node.filterMap_access?_allHappenings, List.filterMap_append] at perm
  have accesses : (happenings (methodTrace m d)).filterMap Happening.access?
      = (references (methodEvents m d)).filterMap (·.use.access?) := by
    rw [references_methodEvents, references, happenings, List.filterMap_map,
      List.filterMap_filterMap]
    exact List.filterMap_congr fun e _ => by cases e <;> rfl
  rw [accesses, show (naming m d).filterMap Happening.access? = [] from rfl, List.append_nil]
    at perm
  have apart := laid.accesses_apart h.mem_reachableStmts
  exact (perm.pairwise_iff Span.Apart.symm).2 apart

end Walk

/-! ## Names from outside -/

/-- The names that a function reads from outside. -/
def freeNames (m : Module) (d : FunctionDef Stmt) : List String :=
  let events := methodEvents m d
  let own := (openedScopes events).map (·.1)
  sortedNames <| (references events).filterMap fun r =>
    if r.ctx == .load && (resolve events r.name r.frame.chain).all (!own.contains ·) then
      some r.name
    else none

end MethodLift.Scope

namespace MethodLift

open MethodLift.Syntax

/-- The free names of the first function of a text. -/
def freeNamesOfText (text : String) : Option (List String) :=
  match (parse text).module with
  | m => match m.reachableStmts.findSome? (·.asFunction) with
    | some d => some (Scope.freeNames m d)
    | none => none

set_option maxRecDepth 100000 in
/-- Of `return(s.x)` becomes `returnx`, a free name that the method did not have. -/
theorem returned_in_parentheses :
    let text := "class A:\n def m(s):return(s.x)\n"
    (parse text).problems.isEmpty = true ∧ freeNamesOfText text = some []
      ∧ (LiftPlan.make (Workspace.ofSnapshot (Snapshot.ofList [("a.py", text)]) [])
        ⟨"a.py", "A", "m", "receiver"⟩).toOption.map (·.function.text) = some "def m(x):returnx"
      ∧ freeNamesOfText "def m(x):returnx" = some ["returnx"] := by
  intro text
  refine ⟨?_, ?_, ?_, ?_⟩
  · unfold text
    simp only [parseComputed.eq]
    decide +kernel
  · unfold text
    simp only [freeNamesOfText, parseComputed.eq, Scope.freeNames]
    decide +kernel
  · unfold text
    simp only [LiftPlan.makeComputed.eq, ofSnapshotComputed.eq]
    decide +kernel
  · simp only [freeNamesOfText, parseComputed.eq]
    decide +kernel

end MethodLift
