import MethodLift.Proofs.Syntax.Trees

/-!
# Trees that branch

Expressions and statements are trees in the same way: each has some trees directly inside it, and
everything inside it is listed, a tree before what it contains.  What follows from that alone is
said here of any `Branching`, and holds of each way to go down a tree.

The expressions that have tokens of their own are one more way: replacement fields stand inside the
token of a string, so going down without them ends at formatted strings (`Expr.unquoted`).
-/

namespace MethodLift.Syntax

/-- Trees, by what is directly inside one and by everything inside it. -/
structure Branching (α : Type) where
  children : α → List α
  descendants : α → List α
  unfold : ∀ a, descendants a = a :: (children a).flatMap descendants

/-- Expressions, and the expressions inside them. -/
def Expr.branching : Branching Expr := ⟨children, descendants, descendants_eq⟩

/-- Statements, and the statements inside them. -/
def Stmt.branching : Branching Stmt := ⟨children, descendants, descendants_eq⟩

namespace Branching

variable {α : Type} (t : Branching α) {a c d p : α} {around : List α}

lemma mem_descendants :
    d ∈ t.descendants a ↔ d = a ∨ ∃ c ∈ t.children a, d ∈ t.descendants c := by
  rw [t.unfold, List.mem_cons, List.mem_flatMap]

lemma length_lt (hc : c ∈ t.children a) :
    (t.descendants c).length < (t.descendants a).length := by
  have listed := List.mem_map_of_mem (f := t.descendants) hc
  have inside := (List.sublist_flatten_of_mem listed).length_le
  rw [t.unfold a, List.length_cons, List.flatMap]
  omega

/-- What holds of a tree when it holds of all that is directly inside it. -/
theorem induction {P : α → Prop} (step : ∀ a, (∀ c ∈ t.children a, P c) → P a) (a : α) : P a :=
  step a fun c hc =>
    have := t.length_lt hc
    induction step c
termination_by (t.descendants a).length

lemma child_mem_descendants (hd : d ∈ t.descendants a) (hc : c ∈ t.children d) :
    c ∈ t.descendants a := by
  induction a using t.induction with
  | step a ih =>
    rcases t.mem_descendants.1 hd with rfl | ⟨b, hb, hd⟩
    · exact t.mem_descendants.2 (.inr ⟨c, hc, t.mem_descendants.2 (.inl rfl)⟩)
    · exact t.mem_descendants.2 (.inr ⟨b, hb, ih b hb hd⟩)

/-- What is inside some trees is one of them or directly inside something inside them. -/
theorem flatMap_perm {as : List α}
    (each : ∀ a ∈ as, (t.descendants a).Perm (a :: (t.descendants a).flatMap t.children)) :
    (as.flatMap t.descendants).Perm (as ++ (as.flatMap t.descendants).flatMap t.children) := by
  rw [List.flatMap_assoc]
  have apart := List.map_append_flatMap_perm as id fun a => (t.descendants a).flatMap t.children
  rw [List.map_id] at apart
  exact (List.Perm.flatMap_left as each).trans apart.symm

/-- What is inside a tree is the tree itself or directly inside something inside it, in one way. -/
theorem perm (a : α) : (t.descendants a).Perm (a :: (t.descendants a).flatMap t.children) := by
  induction a using t.induction with
  | step a ih =>
    have inside := (t.flatMap_perm ih).cons a
    rw [t.unfold a, List.flatMap_cons]
    exact inside

/-! ## Going up -/

/-- Going up from a tree to one that it is inside of, by way of what is around it, the innermost
first. -/
inductive Upto (root : α) : α → List α → Prop
  | root : Upto root root []
  | up {d p : α} {around : List α} (hd : d ∈ t.children p) (rest : Upto root p around) :
    Upto root d (p :: around)

namespace Upto

variable {t}

lemma mem (h : t.Upto a d around) : d ∈ t.descendants a := by
  induction h with
  | root => exact t.mem_descendants.2 (.inl rfl)
  | up hd _ ih => exact t.child_mem_descendants ih hd

/-- Going up one step more. -/
lemma further (h : t.Upto c d around) (hc : c ∈ t.children a) :
    t.Upto a d (around ++ [a]) := by
  induction h with
  | root => exact .up hc .root
  | up hd _ ih => exact .up hd ih

/-- Going up ends at the root. -/
lemma getLastD_eq (h : t.Upto a d around) : around.getLastD d = a := by
  induction h with
  | root => rfl
  | @up d p around _ _ ih =>
    cases around with
    | nil => exact ih
    | cons q around => exact ih

/-- Each step up is to a larger tree. -/
lemma length_add_le (h : t.Upto a d around) :
    around.length + (t.descendants d).length ≤ (t.descendants a).length := by
  induction h with
  | root => simp
  | up hd _ ih =>
    have := t.length_lt hd
    rw [List.length_cons]
    omega

/-- There are at most as many steps as there are trees directly inside another one. -/
lemma length_le (h : t.Upto a d around) :
    around.length ≤ ((t.descendants a).flatMap t.children).length := by
  have steps := h.length_add_le
  have some : 0 < (t.descendants d).length := by
    rw [t.unfold]
    exact Nat.succ_pos _
  have all := (t.perm a).length_eq
  rw [List.length_cons] at all
  omega

end Upto

theorem exists_upto (hd : d ∈ t.descendants a) : ∃ around, t.Upto a d around := by
  induction a using t.induction with
  | step a ih =>
    rcases t.mem_descendants.1 hd with rfl | ⟨c, hc, hd⟩
    · exact ⟨[], .root⟩
    · obtain ⟨around, upto⟩ := ih c hc hd
      exact ⟨around ++ [a], upto.further hc⟩

end Branching

/-! ## Expressions outside of strings -/

namespace Expr

/-- A string with replacement fields. -/
def IsFormatted : Expr → Prop
  | fstring .. => True
  | _ => False

/-- What is directly inside an expression without being inside a string. -/
def unquotedChildren : Expr → List Expr
  | fstring .. => []
  | e => e.children

lemma unquotedChildren_subset (e : Expr) : e.unquotedChildren ⊆ e.children := by
  cases e with
  | fstring => exact List.nil_subset _
  | _ => exact List.Subset.refl _

/-- The expression and what is inside it, but for what stands in replacement fields. -/
def unquoted (e : Expr) : List Expr :=
  e :: e.unquotedChildren.attach.flatMap fun c => unquoted c.1
termination_by sizeOf e
decreasing_by exact sizeOf_lt_of_mem_children (unquotedChildren_subset e c.2)

lemma unquoted_eq (e : Expr) : e.unquoted = e :: e.unquotedChildren.flatMap unquoted := by
  rw [unquoted]
  congr 1
  conv => rhs; rw [← List.attach_map_subtype_val e.unquotedChildren, List.flatMap_map]

/-- Expressions, going down to strings and no further. -/
def unquotedBranching : Branching Expr := ⟨unquotedChildren, unquoted, unquoted_eq⟩

lemma unquotedChildren_of_not {e : Expr} (h : ¬ e.IsFormatted) :
    e.unquotedChildren = e.children := by
  cases e with
  | fstring => exact absurd trivial h
  | _ => rfl

lemma unquoted_subset (e : Expr) : e.unquoted ⊆ e.descendants := by
  induction e using branching.induction with
  | step e ih =>
    intro d hd
    rcases unquotedBranching.mem_descendants.1 hd with rfl | ⟨c, hc, hd⟩
    · exact branching.mem_descendants.2 (.inl rfl)
    · have own := unquotedChildren_subset e hc
      exact branching.mem_descendants.2 (.inr ⟨c, own, ih c own hd⟩)

/-- What is inside an expression is outside of strings, or inside a formatted string that is. -/
theorem unquoted_or_quoted {e d : Expr} (hd : d ∈ e.descendants) :
    d ∈ e.unquoted ∨ ∃ f ∈ e.unquoted, f.IsFormatted ∧ ∃ r ∈ f.children, d ∈ r.descendants := by
  induction e using branching.induction with
  | step e ih =>
    rcases branching.mem_descendants.1 hd with rfl | ⟨c, hc, hd⟩
    · exact .inl (unquotedBranching.mem_descendants.2 (.inl rfl))
    by_cases string : e.IsFormatted
    · exact .inr ⟨e, unquotedBranching.mem_descendants.2 (.inl rfl), string, c, hc, hd⟩
    · have own : c ∈ e.unquotedChildren := by
        rw [unquotedChildren_of_not string]
        exact hc
      have inside {x : Expr} (hx : x ∈ c.unquoted) : x ∈ e.unquoted :=
        unquotedBranching.mem_descendants.2 (.inr ⟨c, own, hx⟩)
      rcases ih c hc hd with unquoted | ⟨f, hf, quoted⟩
      · exact .inl (inside unquoted)
      · exact .inr ⟨f, inside hf, quoted⟩

end Expr

/-- The expressions in a statement that are outside of strings. -/
def Stmt.unquoted (s : Stmt) : List Expr :=
  s.descendants.flatMap fun d => d.exprs.flatMap Expr.unquoted

lemma Stmt.unquoted_eq (s : Stmt) :
    s.unquoted = s.exprs.flatMap Expr.unquoted ++ s.children.flatMap unquoted := by
  rw [unquoted, descendants_eq, List.flatMap_cons, List.flatMap_assoc]
  rfl

end MethodLift.Syntax
