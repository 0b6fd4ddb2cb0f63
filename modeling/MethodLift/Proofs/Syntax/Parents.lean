import MethodLift.Proofs.Syntax.Branching
import MethodLift.Proofs.Syntax.Nesting
import MethodLift.Proofs.Syntax.SpelledStatements

/-!
# What contains what

A module answers what contains a node from lists that it makes of its tree.  For the tree of every
text, one with problems too, these answers are the exact inverse of going down the tree
(`parse_linked`): there is one path to each node, what is found above a node is what the node is
directly inside of, and going up from a node ends at the statement, or at the member of the module's
body, that contains it.

All of it comes from the numbers of the nodes being different (`parse_numbered`).  The arguments
about trees are the same for expressions and for statements, and are made once for what they have in
common, `Branching`.
-/

namespace MethodLift.Syntax

open Scope (ScopeKey)

/-! ## Paths down -/

namespace Node

/-- What is directly inside a node. -/
def inside : Node → List Node
  | read e | target e => reads e.children
  | stmt s => reads s.exprs ++ stmts s.children

/-- Going down from some nodes to a node, by way of the positions in the lists of what is directly
inside. -/
inductive Path : List Node → List ℕ → Node → Prop
  | here {ns : List Node} {i : ℕ} {n : Node} (at_ : ns[i]? = some n) : Path ns [i] n
  | down {ns : List Node} {i : ℕ} {p n : Node} {path : List ℕ} (at_ : ns[i]? = some p)
      (rest : Path p.inside path n) : Path ns (i :: path) n

variable {n n' : Node} {ns : List Node} {path path' : List ℕ}

lemma numbers_eq (n : Node) : n.numbers = n.key :: n.inside.flatMap numbers := by
  cases n with
  | read e | target e =>
    rw [inside, flatMap_numbers_reads]
    exact e.numbers_eq
  | stmt s =>
    rw [inside, List.flatMap_append, flatMap_numbers_reads, stmts, List.flatMap_map]
    exact s.numbers_eq

lemma Path.key_mem (h : Path ns path n) : n.key ∈ ns.flatMap numbers := by
  induction h with
  | @here ns i n at_ =>
    exact List.mem_flatMap.2 ⟨n, List.mem_of_getElem? at_, n.numbers_eq ▸ List.mem_cons_self⟩
  | @down ns i p n path at_ _ ih =>
    exact List.mem_flatMap.2
      ⟨p, List.mem_of_getElem? at_, p.numbers_eq ▸ List.mem_cons_of_mem _ ih⟩

/-- Of nodes without a common number, one has a given number inside it. -/
lemma position_unique {i j : ℕ} {k : ScopeKey} (nodup : (ns.flatMap numbers).Nodup)
    (hi : ns[i]? = some n) (hj : ns[j]? = some n') (hk : k ∈ n.numbers) (hk' : k ∈ n'.numbers) :
    i = j := by
  obtain ⟨li, rfl⟩ := List.getElem?_eq_some_iff.1 hi
  obtain ⟨lj, rfl⟩ := List.getElem?_eq_some_iff.1 hj
  have apart := List.pairwise_iff_getElem.1 (List.nodup_flatMap.1 nodup).2
  rcases Nat.lt_trichotomy i j with lt | same | gt
  · exact absurd hk' (apart i j li lj lt hk)
  · exact same
  · exact absurd hk (apart j i lj li gt hk')

/-- There is only one path to a number. -/
theorem Path.unique (nodup : (ns.flatMap numbers).Nodup) (h : Path ns path n)
    (h' : Path ns path' n') (same : n.key = n'.key) : path = path' := by
  induction h generalizing path' with
  | @here ns i n at_ =>
    have own : n.key ∈ n.numbers := n.numbers_eq ▸ List.mem_cons_self
    cases h' with
    | here at' =>
      have own' : n'.key ∈ n'.numbers := n'.numbers_eq ▸ List.mem_cons_self
      rw [position_unique nodup at_ at' own (same ▸ own')]
    | @down _ j p _ _ at' rest =>
      have inside := rest.key_mem
      rw [← same] at inside
      obtain rfl := position_unique nodup at_ at' own (p.numbers_eq ▸ List.mem_cons_of_mem _ inside)
      obtain rfl := Option.some.inj (at_.symm.trans at')
      -- the number of a node is none of those inside it
      have each := (List.nodup_flatMap.1 nodup).1 n (List.mem_of_getElem? at_)
      rw [n.numbers_eq] at each
      exact absurd inside (List.nodup_cons.1 each).1
  | @down ns i p n path at_ rest ih =>
    have each := (List.nodup_flatMap.1 nodup).1 p (List.mem_of_getElem? at_)
    rw [p.numbers_eq] at each
    have inside := p.numbers_eq ▸ List.mem_cons_of_mem p.key rest.key_mem
    cases h' with
    | here at' =>
      have own' : n'.key ∈ n'.numbers := n'.numbers_eq ▸ List.mem_cons_self
      obtain rfl := position_unique nodup at_ at' inside (same ▸ own')
      obtain rfl := Option.some.inj (at_.symm.trans at')
      exact absurd (same ▸ rest.key_mem) (List.nodup_cons.1 each).1
    | @down _ j p' _ _ at' rest' =>
      have inside' := p'.numbers_eq ▸ List.mem_cons_of_mem p'.key rest'.key_mem
      obtain rfl := position_unique nodup at_ at' inside (same ▸ inside')
      obtain rfl := Option.some.inj (at_.symm.trans at')
      rw [ih (List.nodup_cons.1 each).2 rest' same]

lemma exists_path_read {es : List Expr} {e d : Expr} (he : e ∈ es) (hd : d ∈ e.descendants) :
    ∀ after : List Node, ∃ path, Path (reads es ++ after) path (.read d) := by
  induction e using Expr.branching.induction generalizing es with
  | step e ih =>
    intro after
    have listed : Node.read e ∈ reads es ++ after :=
      List.mem_append_left _ (List.mem_map_of_mem he)
    obtain ⟨i, at_⟩ := List.getElem?_of_mem listed
    rcases Expr.branching.mem_descendants.1 hd with rfl | ⟨c, hc, hd⟩
    · exact ⟨[i], .here at_⟩
    · obtain ⟨path, rest⟩ := ih c hc hc hd []
      rw [List.append_nil] at rest
      exact ⟨i :: path, .down at_ rest⟩

lemma exists_path_stmt {ss : List Stmt} {s d : Stmt} (hs : s ∈ ss) (hd : d ∈ s.descendants) :
    ∀ before : List Node, (∃ path, Path (before ++ stmts ss) path (.stmt d))
      ∧ ∀ e ∈ Module.exprsOfStmt d, ∃ path, Path (before ++ stmts ss) path (.read e) := by
  induction s using Stmt.branching.induction generalizing ss with
  | step s ih =>
    intro before
    have listed : Node.stmt s ∈ before ++ stmts ss :=
      List.mem_append_right _ (List.mem_map_of_mem hs)
    obtain ⟨i, at_⟩ := List.getElem?_of_mem listed
    rcases Stmt.branching.mem_descendants.1 hd with rfl | ⟨c, hc, hd⟩
    · refine ⟨⟨[i], .here at_⟩, fun e he => ?_⟩
      obtain ⟨r, hr, he⟩ := List.mem_flatMap.1 he
      obtain ⟨path, rest⟩ := exists_path_read hr he (stmts d.children)
      exact ⟨i :: path, .down at_ rest⟩
    · obtain ⟨⟨path, rest⟩, exprs⟩ := ih c hc hc hd (reads s.exprs)
      refine ⟨⟨i :: path, .down at_ rest⟩, fun e he => ?_⟩
      obtain ⟨path, rest⟩ := exprs e he
      exact ⟨i :: path, .down at_ rest⟩

end Node

/-! ## The lists of a module -/

/-- The expressions directly inside what contains them. -/
def Parent.exprs : Parent → List Expr
  | .stmt s => s.exprs
  | .expr e => e.children

/-- Whether what contains an expression is a part of a module. -/
def Parent.In (m : Module) : Parent → Prop
  | .stmt s => s ∈ m.reachableStmts
  | .expr e => e ∈ m.reachableExprs

namespace Module

variable {m : Module} {s b : Stmt} {e : Expr} {p : Parent}

/-- What the list of nodes around expressions holds. -/
lemma mem_exprParents {serial : ℕ} :
    (serial, p) ∈ m.exprParents ↔ p.In m ∧ ∃ e ∈ p.exprs, e.serial = serial := by
  simp only [exprParents, List.mem_flatMap, List.mem_append, List.mem_map, Prod.mk.injEq]
  constructor
  · rintro ⟨s, hs, ⟨e, he, rfl, rfl⟩ | ⟨q, hq, e, he, rfl, rfl⟩⟩
    · exact ⟨hs, e, he, rfl⟩
    · exact ⟨List.mem_flatMap.2 ⟨s, hs, hq⟩, e, he, rfl⟩
  · rintro ⟨hp, e, he, rfl⟩
    cases p with
    | stmt s => exact ⟨s, hp, .inl ⟨e, he, rfl, rfl⟩⟩
    | expr q =>
      obtain ⟨s, hs, hq⟩ := List.mem_flatMap.1 hp
      exact ⟨s, hs, .inr ⟨q, hq, e, he, rfl, rfl⟩⟩

/-- What is directly inside a part of a module is a part of it. -/
lemma mem_reachableExprs_of_in (hp : p.In m) (he : e ∈ p.exprs) :
    e ∈ m.reachableExprs := by
  cases p with
  | stmt s =>
    have own : e ∈ exprsOfStmt s :=
      List.mem_flatMap.2 ⟨e, he, Expr.branching.mem_descendants.2 (.inl rfl)⟩
    exact List.mem_flatMap.2 ⟨s, hp, own⟩
  | expr q =>
    obtain ⟨s, hs, hq⟩ := List.mem_flatMap.1 hp
    obtain ⟨r, hr, hq⟩ := List.mem_flatMap.1 hq
    have own : e ∈ exprsOfStmt s :=
      List.mem_flatMap.2 ⟨r, hr, Expr.branching.child_mem_descendants hq he⟩
    exact List.mem_flatMap.2 ⟨s, hs, own⟩

/-- Each expression of a module is directly inside one node. -/
lemma exprParents_serials :
    (m.exprParents.map Prod.fst).Perm (m.reachableExprs.map (·.serial)) := by
  rw [exprParents, reachableExprs, List.map_flatMap, List.map_flatMap]
  refine List.Perm.flatMap_left _ fun s _ => ?_
  have inside : (exprsOfStmt s).Perm (s.exprs ++ (exprsOfStmt s).flatMap Expr.children) :=
    Expr.branching.flatMap_perm fun e _ => Expr.branching.perm e
  have serials := (inside.map (·.serial)).symm
  rw [List.map_append, List.map_flatMap] at serials
  simpa [List.map_flatMap, Function.comp_def] using serials

/-- Each statement of a module is in its body or directly inside one statement. -/
lemma stmtParents_serials : (m.body.map (·.serial) ++ m.stmtParents.map Prod.fst).Perm
    (m.reachableStmts.map (·.serial)) := by
  have inside : m.reachableStmts.Perm (m.body ++ m.reachableStmts.flatMap Stmt.children) :=
    Stmt.branching.flatMap_perm fun s _ => Stmt.branching.perm s
  have serials := (inside.map (·.serial)).symm
  rw [List.map_append, List.map_flatMap] at serials
  simpa [stmtParents, List.map_flatMap, Function.comp_def] using serials

/-- The numbers of a module are those of its statements and those of its expressions. -/
lemma numbers_perm : ((Node.stmts m.body).flatMap Node.numbers).Perm
    (m.reachableStmts.map (fun s => ScopeKey.stmt s.serial)
      ++ m.reachableExprs.map fun e => ScopeKey.expr e.serial) := by
  have each := List.map_append_flatMap_perm m.reachableStmts (fun s => ScopeKey.stmt s.serial)
    fun s => (exprsOfStmt s).map fun e => ScopeKey.expr e.serial
  rw [← List.map_flatMap] at each
  refine List.Perm.trans ?_ each.symm
  rw [Node.stmts, List.flatMap_map, reachableStmts, List.flatMap_assoc]
  exact .refl _

/-- What is inside an expression of a statement of a module. -/
lemma mem_exprs_of_upto {r : Expr} {around : List Expr} (hs : s ∈ m.reachableStmts)
    (hr : r ∈ s.exprs) (upto : Expr.branching.Upto r e around) : e ∈ m.reachableExprs :=
  List.mem_flatMap.2 ⟨s, hs, List.mem_flatMap.2 ⟨r, hr, upto.mem⟩⟩

/-! ## Nodes with numbers of their own -/

/-- A node is reached along one path, and no path leads to another node with its number. -/
def OnePath (m : Module) (n : Node) : Prop :=
  ∃ path, Node.Path (Node.stmts m.body) path n
    ∧ ∀ path' n', Node.Path (Node.stmts m.body) path' n' → n'.key = n.key → path' = path

section Numbered

variable {a z : Point} (h : Numbered a z (Node.stmts m.body) m.unused)
include h

lemma onePath {n : Node} (reached : ∃ path, Node.Path (Node.stmts m.body) path n) :
    m.OnePath n := by
  obtain ⟨path, reached⟩ := reached
  exact ⟨path, reached, fun _ _ other same => other.unique h.nodup.of_append_left reached same⟩

lemma stmt_serials_nodup : (m.reachableStmts.map (·.serial)).Nodup := by
  have keys := (numbers_perm.nodup_iff.1 h.nodup.of_append_left).of_append_left
  refine List.Nodup.of_map ScopeKey.stmt ?_
  rw [List.map_map]
  exact keys

lemma expr_serials_nodup : ((m.reachableExprs ++ m.unused).map (·.serial)).Nodup := by
  have keys := (numbers_perm.append_right _).nodup_iff.1 h.nodup
  rw [List.append_assoc, ← List.map_append] at keys
  refine List.Nodup.of_map ScopeKey.expr ?_
  rw [List.map_map]
  exact keys.of_append_right

lemma parentOfExpr?_eq_some_iff (he : e ∈ m.exprs) :
    m.parentOfExpr? e.serial = some p ↔ p.In m ∧ e ∈ p.exprs := by
  have serials := expr_serials_nodup h
  have listed : (m.exprParents.map Prod.fst).Nodup :=
    exprParents_serials.nodup_iff.2 (List.map_append ▸ serials).of_append_left
  rw [parentOfExpr?, lookup_eq_some_iff_mem listed, mem_exprParents]
  refine and_congr_right fun hp => ⟨?_, fun he => ⟨e, he, rfl⟩⟩
  rintro ⟨e', he', same⟩
  have mem : e' ∈ m.reachableExprs ++ m.unused :=
    List.mem_append_left _ (mem_reachableExprs_of_in hp he')
  have mem' : e ∈ m.reachableExprs ++ m.unused := List.mem_append.2 (mem_exprs.1 he)
  exact List.inj_on_of_nodup_map serials mem mem' same ▸ he'

lemma parentOfStmt?_eq_some_iff {q : Stmt} (hs : s ∈ m.reachableStmts) :
    m.parentOfStmt? s.serial = some q ↔ q ∈ m.reachableStmts ∧ s ∈ q.children := by
  have serials := stmt_serials_nodup h
  have listed := (stmtParents_serials.nodup_iff.2 serials).of_append_right
  rw [parentOfStmt?, lookup_eq_some_iff_mem listed, mem_stmtParents]
  refine and_congr_right fun hq => ⟨?_, fun hs => ⟨s, hs, rfl⟩⟩
  rintro ⟨s', hs', same⟩
  have mem := child_mem_reachableStmts hq hs'
  exact List.inj_on_of_nodup_map serials mem hs same ▸ hs'

/-- A statement of the body is not directly inside another one. -/
lemma parentOfStmt?_body (hb : b ∈ m.body) : m.parentOfStmt? b.serial = none := by
  have apart := (stmtParents_serials.nodup_iff.2 (stmt_serials_nodup h))
  rw [parentOfStmt?, List.lookup_eq_none_iff]
  intro p hp
  have other := (List.nodup_append.1 apart).2.2 _ (List.mem_map_of_mem hb) _
    (List.mem_map_of_mem (f := Prod.fst) hp)
  simpa using other

/-! ## Going up a module -/

/-- Going up from a statement finds what is around it, up to the body. -/
lemma stmtAncestors_go_eq {around : List Stmt} (hb : b ∈ m.body)
    (upto : Stmt.branching.Upto b s around) {n : ℕ} (enough : around.length ≤ n) :
    stmtAncestors.go m n s.serial = around := by
  induction upto generalizing n with
  | root =>
    cases n with
    | zero => rfl
    | succ n => rw [stmtAncestors.go, parentOfStmt?_body h hb]
  | @up s q around hs rest ih =>
    have hq : q ∈ m.reachableStmts := List.mem_flatMap.2 ⟨b, hb, rest.mem⟩
    have parent := (parentOfStmt?_eq_some_iff h (child_mem_reachableStmts hq hs)).2 ⟨hq, hs⟩
    cases n with
    | zero => exact absurd enough (Nat.not_succ_le_zero _)
    | succ n =>
      rw [stmtAncestors.go, parent]
      exact congrArg (q :: ·) (ih (Nat.le_of_succ_le_succ enough))

theorem stmtAncestors_eq {around : List Stmt} (hb : b ∈ m.body)
    (upto : Stmt.branching.Upto b s around) : m.stmtAncestors s.serial = around := by
  have steps : around.length ≤ m.stmtParents.length := by
    refine upto.length_le.trans ?_
    have part : (b.descendants.flatMap Stmt.children).Sublist
        (m.reachableStmts.flatMap Stmt.children) := by
      rw [reachableStmts, List.flatMap_assoc]
      exact List.sublist_flatten_of_mem (List.mem_map.2 ⟨b, hb, rfl⟩)
    refine part.length_le.trans (le_of_eq ?_)
    simp [stmtParents, List.length_flatMap]
  exact stmtAncestors_go_eq h hb upto steps

/-- Going up from a statement ends at the statement of the body that it is inside of. -/
theorem topLevel_eq (hb : b ∈ m.body) (hs : s ∈ b.descendants) : m.topLevel s = b := by
  obtain ⟨around, upto⟩ := Stmt.branching.exists_upto hs
  rw [topLevel, stmtAncestors_eq h hb upto]
  exact upto.getLastD_eq

/-- Going up from an expression finds what is around it, up to the statement. -/
lemma exprAncestors_go_eq {r : Expr} {around : List Expr} (hs : s ∈ m.reachableStmts)
    (hr : r ∈ s.exprs) (upto : Expr.branching.Upto r e around) {n : ℕ}
    (enough : around.length ≤ n) : exprAncestors.go m n e.serial = around := by
  have reached {d : Expr} {l : List Expr} (upto : Expr.branching.Upto r d l) : d ∈ m.exprs :=
    mem_exprs.2 (.inl (mem_exprs_of_upto hs hr upto))
  induction upto generalizing n with
  | root =>
    have parent := (parentOfExpr?_eq_some_iff h (p := .stmt s) (reached .root)).2 ⟨hs, hr⟩
    cases n with
    | zero => rfl
    | succ n => rw [exprAncestors.go, parent]
  | @up d q around hd rest ih =>
    have parent := (parentOfExpr?_eq_some_iff h (p := .expr q) (reached (.up hd rest))).2
      ⟨mem_exprs_of_upto hs hr rest, hd⟩
    cases n with
    | zero => exact absurd enough (Nat.not_succ_le_zero _)
    | succ n =>
      rw [exprAncestors.go, parent]
      exact congrArg (q :: ·) (ih (Nat.le_of_succ_le_succ enough))

theorem exprAncestors_eq {r : Expr} {around : List Expr} (hs : s ∈ m.reachableStmts)
    (hr : r ∈ s.exprs) (upto : Expr.branching.Upto r e around) :
    m.exprAncestors e.serial = around := by
  have steps : around.length ≤ m.exprParents.length := by
    have whole := exprParents_serials (m := m).length_eq
    have part : r.descendants.Sublist m.reachableExprs := by
      refine List.Sublist.trans ?_ (List.sublist_flatten_of_mem (List.mem_map.2 ⟨s, hs, rfl⟩))
      exact List.sublist_flatten_of_mem (List.mem_map.2 ⟨r, hr, rfl⟩)
    have longest := upto.length_add_le
    have size := part.length_le
    rw [List.length_map, List.length_map] at whole
    change _ ≤ r.descendants.length at longest
    omega
  exact exprAncestors_go_eq h hs hr upto steps

/-- Going up from an expression ends at the statement that it is an expression of. -/
theorem climb_eq (hs : s ∈ m.reachableStmts) (he : e ∈ exprsOfStmt s) :
    m.parentOfExpr? ((m.exprAncestors e.serial).getLastD e).serial = some (.stmt s) := by
  obtain ⟨r, hr, he⟩ := List.mem_flatMap.1 he
  obtain ⟨around, upto⟩ := Expr.branching.exists_upto he
  rw [exprAncestors_eq h hs hr upto, upto.getLastD_eq]
  have reached := mem_exprs.2 (.inl (mem_exprs_of_upto hs hr .root))
  exact (parentOfExpr?_eq_some_iff h reached).2 ⟨hs, hr⟩

/-- No other statement has an expression with the number of one of a statement's expressions. -/
theorem enclosingStmt?_eq (hs : s ∈ m.reachableStmts) (he : e ∈ exprsOfStmt s) :
    m.enclosingStmt? e.serial = some s := by
  obtain ⟨before, after, parts⟩ := List.append_of_mem hs
  have serials := (List.map_append ▸ expr_serials_nodup h).of_append_left
  rw [reachableExprs, parts, List.flatMap_append, List.map_append] at serials
  refine List.find?_eq_some_iff_append.2 ⟨List.any_eq_true.2 ⟨e, he, beq_self_eq_true _⟩,
    before, after, parts, fun d hd => ?_⟩
  rw [Bool.not_eq_true', List.any_eq_false]
  intro e' he' same
  have left := List.mem_map_of_mem (f := (·.serial)) (List.mem_flatMap.2 ⟨d, hd, he'⟩)
  have right := List.mem_map_of_mem (f := (·.serial))
    (List.mem_flatMap.2 ⟨s, List.mem_cons_self (l := after), he⟩)
  exact (List.nodup_append.1 serials).2.2 _ left _ right (eq_of_beq same)

end Numbered

/-- What a module says contains its nodes is the inverse of what its nodes contain. -/
structure Linked (m : Module) : Prop where
  stmt_path : ∀ s ∈ m.reachableStmts, m.OnePath (.stmt s)
  expr_path : ∀ e ∈ m.reachableExprs, m.OnePath (.read e)
  stmt_serials : (m.stmts.map (·.serial)).Nodup
  expr_serials : (m.exprs.map (·.serial)).Nodup
  stmt_parent : ∀ s ∈ m.stmts, ∀ q, m.parentOfStmt? s.serial = some q
    ↔ q ∈ m.reachableStmts ∧ s ∈ q.children
  expr_parent : ∀ e ∈ m.exprs, ∀ p, m.parentOfExpr? e.serial = some p ↔ p.In m ∧ e ∈ p.exprs
  stmt_smaller : ∀ s ∈ m.reachableStmts, ∀ c ∈ s.children, c.serial < s.serial
  expr_smaller : ∀ e ∈ m.reachableExprs, ∀ c ∈ e.children, c.serial < e.serial
  /-- Found at once, and by going up. -/
  enclosing : ∀ s ∈ m.reachableStmts, ∀ e ∈ exprsOfStmt s, m.enclosingStmt? e.serial = some s
    ∧ m.parentOfExpr? ((m.exprAncestors e.serial).getLastD e).serial = some (.stmt s)
  topLevel : ∀ b ∈ m.body, ∀ s ∈ b.descendants, m.topLevel s = b

lemma linked_of_numbered {a z : Point} (h : Numbered a z (Node.stmts m.body) m.unused) :
    m.Linked where
  stmt_path := by
    intro s hs
    obtain ⟨b, hb, hs⟩ := List.mem_flatMap.1 hs
    exact onePath h (Node.exists_path_stmt hb hs []).1
  expr_path := by
    intro e he
    obtain ⟨s, hs, he⟩ := List.mem_flatMap.1 he
    obtain ⟨b, hb, hs⟩ := List.mem_flatMap.1 hs
    exact onePath h ((Node.exists_path_stmt hb hs []).2 e he)
  stmt_serials := ((List.mergeSort_perm _ _).map _).nodup_iff.2 (stmt_serials_nodup h)
  expr_serials := ((List.mergeSort_perm _ _).map _).nodup_iff.2 (expr_serials_nodup h)
  stmt_parent := fun s hs q => parentOfStmt?_eq_some_iff h (List.mem_mergeSort.1 hs)
  expr_parent := fun e he p => parentOfExpr?_eq_some_iff h he
  stmt_smaller := by
    intro s hs c hc
    obtain ⟨b, hb, hs⟩ := List.mem_flatMap.1 hs
    have descending : b.Descending := h.descending _ (List.mem_map_of_mem hb)
    exact (descending.descendant hs).here.1 c hc
  expr_smaller := by
    intro e he c hc
    obtain ⟨s, hs, he⟩ := List.mem_flatMap.1 he
    obtain ⟨b, hb, hs⟩ := List.mem_flatMap.1 hs
    obtain ⟨r, hr, he⟩ := List.mem_flatMap.1 he
    have descending : b.Descending := h.descending _ (List.mem_map_of_mem hb)
    exact (((descending.descendant hs).here.2 r hr).descendant he).here c hc
  enclosing := fun s hs e he => ⟨enclosingStmt?_eq h hs he, climb_eq h hs he⟩
  topLevel := fun b hb s hs => topLevel_eq h hb hs

end Module

/-- Whatever the text, what its module says contains a node is what the node is in. -/
theorem parse_linked (text : String) : (parse text).module.Linked := by
  obtain ⟨a, z, numbered⟩ := parse_numbered text
  exact Module.linked_of_numbered numbered

end MethodLift.Syntax
