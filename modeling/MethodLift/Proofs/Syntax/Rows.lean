import MethodLift.Proofs.Syntax.Nodes
import MethodLift.Proofs.Syntax.Trees

/-!
# Nodes in a row

In the tree of a text without problems, the parts of a node stand inside it, one behind the other,
and no two nodes of a sort have the same serial number.  A node of which this holds, here and for
everything inside it, is `Laid`.

The parser builds such nodes from the left to the right: at any time it has read some nodes that lie
one behind the other between where it started and where it is now, and that have the serial numbers
given out in between.  This is a `Row` between two `Point`s.  Rows are put together end to end
(`Row.append`), and a node whose parts are a row is a row of one (`Row.node`).

Parentheses widen a node and assigning changes the role of one; neither changes what is inside
(`Row.withSpan`, `Row.retarget`).
-/

namespace MethodLift.Syntax

open Scope (ScopeKey)

namespace Node

/-! ## Nodes that lie apart -/

/-- The numbers of a node and of everything inside it. -/
def keys (n : Node) : List ScopeKey := n.all.map key

lemma keys_eq (n : Node) : n.keys = n.key :: n.parts.flatMap keys := by
  rw [keys, all_eq, List.map_cons, List.map_flatMap]
  rfl

/-- A node ends before another one begins, and they have no number in common. -/
structure Before (a b : Node) : Prop where
  stop_le : a.span.stop ≤ b.span.start
  disjoint : a.keys.Disjoint b.keys

/-- An expression that is evaluated is there to be read, and one that is assigned to is not. -/
def InRole : Node → Prop
  | read (.missing _) => False
  | read e => e.ctx = .load
  | target e => e.ctx ≠ .load
  | stmt _ => True

/-- What is known of the form of an expression that ends at an offset: the name of an attribute
stands behind what the attribute is taken from, the arguments of a call end where their values do, an
assignment expression assigns to a name, and the parameters of a lambda have no annotations. -/
def Formed (stop : ℕ) : Expr → Prop
  | .attr _ value _ _ => value.span.stop < stop
  | .call _ _ args => ∀ a ∈ args, a.span.stop = a.value.span.stop
  | .named _ t _ => ∃ m id ctx, t = .name m id ctx
  | .lambda _ params _ => ∀ p ∈ params.params, p.annotation = none
  | _ => True

/-- A node takes some space, its parts stand inside it one behind the other, and its number is none
of theirs. -/
structure Fits (n : Node) : Prop where
  nonempty : n.span.start < n.span.stop
  inside : ∀ c ∈ n.parts, n.span.start ≤ c.span.start ∧ c.span.stop ≤ n.span.stop
  apart : n.parts.Pairwise Before
  own : ∀ c ∈ n.parts, n.key ∉ c.keys
  role : n.InRole
  formed : ∀ e, n.expr? = some e → Formed n.span.stop e

/-- A node that fits, with everything inside it. -/
inductive Laid : Node → Prop
  | node {n : Node} (here : n.Fits) (inside : ∀ c ∈ n.parts, Laid c) : Laid n

lemma Laid.here {n : Node} (h : n.Laid) : n.Fits := by
  cases h with
  | node here _ => exact here

lemma Laid.part {n c : Node} (h : n.Laid) (hc : c ∈ n.parts) : c.Laid := by
  cases h with
  | node _ inside => exact inside c hc

/-- What is inside a node that is laid is laid, and stands inside. -/
theorem Laid.descendant {n x : Node} (h : n.Laid) (hx : x ∈ n.all) :
    x.Laid ∧ n.span.start ≤ x.span.start ∧ x.span.stop ≤ n.span.stop := by
  induction h with
  | @node n here inside ih =>
    rcases mem_all.1 hx with rfl | ⟨c, hc, hx⟩
    · exact ⟨.node here inside, Nat.le_refl _, Nat.le_refl _⟩
    · obtain ⟨laid, start, stop⟩ := ih c hc hx
      obtain ⟨start', stop'⟩ := here.inside c hc
      exact ⟨laid, Nat.le_trans start' start, Nat.le_trans stop stop'⟩

/-- No number occurs twice. -/
theorem Laid.keys_nodup {n : Node} (h : n.Laid) : n.keys.Nodup := by
  induction h with
  | @node n here inside ih =>
    rw [keys_eq, List.nodup_cons, List.mem_flatMap, List.nodup_flatMap]
    refine ⟨?_, ih, here.apart.imp Before.disjoint⟩
    rintro ⟨c, hc, own⟩
    exact here.own c hc own

/-- Of two nodes in a tree, the first one contains the second one or ends before it. -/
theorem Laid.pairwise {n : Node} (h : n.Laid) :
    n.all.Pairwise fun x y => y ∈ x.all ∨ x.span.stop ≤ y.span.start := by
  induction h with
  | @node n here inside ih =>
    rw [all_eq, List.pairwise_cons, List.pairwise_flatMap]
    refine ⟨?_, ih, ?_⟩
    · intro x hx
      rw [List.mem_flatMap] at hx
      exact .inl (mem_all.2 (.inr hx))
    · refine here.apart.imp_of_mem ?_
      intro c d hc hd before x hx y hy
      have left := ((inside c hc).descendant hx).2.2
      have right := ((inside d hd).descendant hy).2.1
      exact .inr (Nat.le_trans left (Nat.le_trans before.stop_le right))

end Node

/-! ## Rows -/

/-- A place in the text, and how many expressions and statements are complete there. -/
structure Point where
  offset : ℕ
  exprs : ℕ
  stmts : ℕ

/-- One point is reached before another one. -/
structure Point.Upto (a b : Point) : Prop where
  offset : a.offset ≤ b.offset
  exprs : a.exprs ≤ b.exprs
  stmts : a.stmts ≤ b.stmts

lemma Point.Upto.refl (a : Point) : a.Upto a := ⟨Nat.le_refl _, Nat.le_refl _, Nat.le_refl _⟩

/-- A number that was given out between two points. -/
def Point.Between (a b : Point) : ScopeKey → Prop
  | .expr serial => a.exprs ≤ serial ∧ serial < b.exprs
  | .stmt serial => a.stmts ≤ serial ∧ serial < b.stmts

lemma Point.Between.mono {a b a' b' : Point} {k : ScopeKey} (h : Point.Between a b k)
    (left : a'.exprs ≤ a.exprs ∧ a'.stmts ≤ a.stmts)
    (right : b.exprs ≤ b'.exprs ∧ b.stmts ≤ b'.stmts) : Point.Between a' b' k := by
  cases k with
  | expr serial => exact ⟨Nat.le_trans left.1 h.1, Nat.lt_of_lt_of_le h.2 right.1⟩
  | stmt serial => exact ⟨Nat.le_trans left.2 h.1, Nat.lt_of_lt_of_le h.2 right.2⟩

/-- Numbers that are given out later are others. -/
lemma Point.Between.ne {a b c d : Point} {k l : ScopeKey} (h : Point.Between a b k)
    (later : b.Upto c) (h' : Point.Between c d l) : k ≠ l := by
  rintro rfl
  have exprs := later.exprs
  have stmts := later.stmts
  cases k with
  | expr serial =>
    have := h.2
    have := h'.1
    omega
  | stmt serial =>
    have := h.2
    have := h'.1
    omega

/-- Nodes that lie one behind the other between two points. -/
structure Row (a b : Point) (ns : List Node) : Prop where
  laid : ∀ n ∈ ns, n.Laid
  within : ∀ n ∈ ns, a.offset ≤ n.span.start ∧ n.span.stop ≤ b.offset
  apart : ns.Pairwise Node.Before
  numbered : ∀ n ∈ ns, ∀ k ∈ n.keys, Point.Between a b k

namespace Row

variable {a b c d : Point} {ns ms : List Node} {n : Node}

lemma nil : Row a b [] := ⟨nofun, nofun, .nil, nofun⟩

/-- Between points farther apart. -/
lemma mono (h : Row a b ns) (left : c.Upto a) (right : b.Upto d) : Row c d ns := by
  refine ⟨h.laid, ?_, h.apart, ?_⟩
  · intro n hn
    obtain ⟨start, stop⟩ := h.within n hn
    exact ⟨Nat.le_trans left.offset start, Nat.le_trans stop right.offset⟩
  · intro n hn k hk
    exact (h.numbered n hn k hk).mono ⟨left.exprs, left.stmts⟩ ⟨right.exprs, right.stmts⟩

/-- One row behind another one. -/
theorem append (h : Row a b ns) (h' : Row c d ms) (left : a.Upto c) (between : b.Upto c)
    (right : b.Upto d) : Row a d (ns ++ ms) := by
  have first : Row a d ns := h.mono (.refl a) right
  have second : Row a d ms := h'.mono left (.refl d)
  refine ⟨List.forall_mem_append.2 ⟨first.laid, second.laid⟩,
    List.forall_mem_append.2 ⟨first.within, second.within⟩, ?_,
    List.forall_mem_append.2 ⟨first.numbered, second.numbered⟩⟩
  refine List.pairwise_append.2 ⟨h.apart, h'.apart, ?_⟩
  intro n hn m hm
  refine ⟨?_, ?_⟩
  · have stop := (h.within n hn).2
    have start := (h'.within m hm).1
    exact Nat.le_trans stop (Nat.le_trans between.offset start)
  · intro k hk hk'
    exact (h.numbered n hn k hk).ne between (h'.numbered m hm k hk') rfl

lemma right (h : Row a b (ns ++ ms)) : Row a b ms :=
  ⟨(List.forall_mem_append.1 h.laid).2, (List.forall_mem_append.1 h.within).2,
    (List.pairwise_append.1 h.apart).2.1, (List.forall_mem_append.1 h.numbered).2⟩

/-- What a row of one node contains is a row. -/
lemma parts (h : Row a b [n]) : Row a b n.parts := by
  have laid : n.Laid := h.laid n List.mem_cons_self
  have within := h.within n List.mem_cons_self
  refine ⟨fun c hc => laid.part hc, ?_, laid.here.apart, ?_⟩
  · intro c hc
    have inside := laid.here.inside c hc
    exact ⟨Nat.le_trans within.1 inside.1, Nat.le_trans inside.2 within.2⟩
  · intro c hc k hk
    refine h.numbered n List.mem_cons_self k ?_
    rw [Node.keys_eq]
    exact List.mem_cons_of_mem _ (List.mem_flatMap.2 ⟨c, hc, hk⟩)

/-- A node whose parts are a row, and whose number was given out after theirs. -/
theorem node (h : Row a b n.parts) (number : Point.Between b c n.key) (upto : b.Upto c)
    (left : a.Upto b) (start : a.offset ≤ n.span.start) (stop : n.span.stop ≤ c.offset)
    (inside : ∀ c ∈ n.parts, n.span.start ≤ c.span.start ∧ c.span.stop ≤ n.span.stop)
    (nonempty : n.span.start < n.span.stop) (role : n.InRole)
    (formed : ∀ e, n.expr? = some e → Node.Formed n.span.stop e) : Row a c [n] := by
  have own : ∀ d ∈ n.parts, n.key ∉ d.keys := by
    intro d hd is
    exact (h.numbered d hd _ is).ne (.refl b) number rfl
  refine ⟨?_, ?_, List.pairwise_singleton _ _, ?_⟩
  · refine List.forall_mem_singleton.2 (.node ⟨nonempty, inside, h.apart, own, role, formed⟩ ?_)
    exact h.laid
  · exact List.forall_mem_singleton.2 ⟨start, stop⟩
  · refine List.forall_mem_singleton.2 fun k hk => ?_
    rw [Node.keys_eq, List.mem_cons, List.mem_flatMap] at hk
    rcases hk with rfl | ⟨d, hd, hk⟩
    · exact number.mono ⟨left.exprs, left.stmts⟩ ⟨Nat.le_refl _, Nat.le_refl _⟩
    · exact (h.numbered d hd k hk).mono ⟨Nat.le_refl _, Nat.le_refl _⟩ ⟨upto.exprs, upto.stmts⟩

/-- A node of a row in another form, with the same numbers at the same place. -/
lemma replace {m : Node} (h : Row a b (ns ++ n :: ms)) (laid : m.Laid) (span : m.span = n.span)
    (keys : m.keys = n.keys) : Row a b (ns ++ m :: ms) := by
  have other {x : Node} (hx : x ∈ ns ++ m :: ms) : x = m ∨ x ∈ ns ++ n :: ms := by
    rw [List.mem_append, List.mem_cons] at hx ⊢
    tauto
  have old : n ∈ ns ++ n :: ms := List.mem_append_right _ List.mem_cons_self
  refine ⟨?_, ?_, ?_, ?_⟩
  · intro x hx
    rcases other hx with rfl | hx
    · exact laid
    · exact h.laid x hx
  · intro x hx
    rcases other hx with rfl | hx
    · rw [span]
      exact h.within n old
    · exact h.within x hx
  · obtain ⟨first, second, between⟩ := List.pairwise_append.1 h.apart
    obtain ⟨head, tail⟩ := List.pairwise_cons.1 second
    refine List.pairwise_append.2 ⟨first, List.pairwise_cons.2 ⟨?_, tail⟩, ?_⟩
    · intro y hy
      exact ⟨span ▸ (head y hy).stop_le, keys ▸ (head y hy).disjoint⟩
    · intro x hx y hy
      rcases List.mem_cons.1 hy with rfl | hy
      · have before := between x hx n List.mem_cons_self
        exact ⟨span ▸ before.stop_le, keys ▸ before.disjoint⟩
      · exact between x hx y (List.mem_cons_of_mem _ hy)
  · intro x hx
    rcases other hx with rfl | hx
    · rw [keys]
      exact h.numbered n old
    · exact h.numbered x hx

end Row

/-! ## Other spans and other roles -/

namespace Node

@[simp] lemma parts_withSpan (s : Span) (e : Expr) :
    (read (e.withSpan s)).parts = (read e).parts := by
  cases e <;> rfl

@[simp] lemma key_withSpan (s : Span) (e : Expr) : (read (e.withSpan s)).key = (read e).key := by
  cases e <;> rfl

lemma keys_withSpan (s : Span) (e : Expr) : (read (e.withSpan s)).keys = (read e).keys := by
  rw [keys_eq, keys_eq, parts_withSpan, key_withSpan]

lemma inRole_withSpan {s : Span} {e : Expr} (h : (read e).InRole) :
    (read (e.withSpan s)).InRole := by
  cases e <;> exact h

/-- A node stays laid when it grows. -/
lemma Laid.withSpan {s : Span} {e : Expr} (h : (read e).Laid) (start : s.start ≤ e.span.start)
    (stop : e.span.stop ≤ s.stop) : (read (e.withSpan s)).Laid := by
  have span : (read (e.withSpan s)).span = s := by cases e <;> rfl
  have nonempty : e.span.start < e.span.stop := h.here.nonempty
  refine .node ⟨?_, ?_, ?_, ?_, inRole_withSpan h.here.role, ?_⟩ ?_
  · rw [span]
    omega
  · intro c hc
    rw [parts_withSpan] at hc
    have inside := h.here.inside c hc
    rw [span]
    exact ⟨Nat.le_trans start inside.1, Nat.le_trans inside.2 stop⟩
  · rw [parts_withSpan]
    exact h.here.apart
  · rw [parts_withSpan, key_withSpan]
    exact h.here.own
  · rintro _ ⟨⟩
    rw [span]
    have formed : Formed e.span.stop e := h.here.formed e rfl
    cases e with
    | attr m value name ctx => exact Nat.lt_of_lt_of_le formed stop
    | call | named | lambda => exact formed
    | _ => trivial
  · rw [parts_withSpan]
    exact fun c hc => h.part hc

/-- An expression as a target, with the same numbers at the same place. -/
structure Retargets (e t : Expr) : Prop where
  laid : (target t).Laid
  span : t.span = e.span
  keys : (target t).keys = (read e).keys

/-- An expression whose parts stay as they are. -/
lemma Laid.retargets {e t : Expr} (h : (read e).Laid) (mark : t.mark = e.mark)
    (parts : (target t).parts = (read e).parts) (role : t.ctx ≠ .load)
    (formed : Formed e.span.stop t) : Retargets e t := by
  have span : t.span = e.span := congrArg Mark.span mark
  have key : (target t).key = (read e).key :=
    congrArg (fun m : Mark => ScopeKey.expr m.serial) mark
  refine ⟨.node ⟨?_, ?_, ?_, ?_, role, ?_⟩ ?_, span, ?_⟩
  · rw [span_target, span]
    exact h.here.nonempty
  · rw [parts, span_target, span]
    exact h.here.inside
  · rw [parts]
    exact h.here.apart
  · rw [parts, key]
    exact h.here.own
  · rintro _ ⟨⟩
    rw [span_target, span]
    exact formed
  · rw [parts]
    exact fun c hc => h.part hc
  · rw [keys_eq, keys_eq, parts, key]

/-- An expression whose elements become targets with it. -/
lemma Laid.retargets_elements {e t : Expr} {f : Expr → Expr} (h : (read e).Laid)
    (elements : List Expr) (mark : t.mark = e.mark) (before : (read e).parts = reads elements)
    (after : (target t).parts = targets (elements.map f)) (role : t.ctx ≠ .load)
    (formed : ∀ stop, Formed stop t)
    (ih : ∀ d ∈ elements, Retargets d (f d)) : Retargets e t := by
  have span : t.span = e.span := congrArg Mark.span mark
  have key : (target t).key = (read e).key :=
    congrArg (fun m : Mark => ScopeKey.expr m.serial) mark
  have inside := h.here.inside
  have apart := h.here.apart
  have own := h.here.own
  rw [before] at inside apart own
  have mem {d : Node} (hd : d ∈ targets (elements.map f)) : ∃ x ∈ elements, d = target (f x) := by
    simp only [targets, List.mem_map] at hd
    obtain ⟨_, ⟨x, hx, rfl⟩, rfl⟩ := hd
    exact ⟨x, hx, rfl⟩
  have read_mem {x : Expr} (hx : x ∈ elements) : read x ∈ reads elements :=
    List.mem_map_of_mem hx
  refine ⟨.node ⟨?_, ?_, ?_, ?_, role, ?_⟩ ?_, span, ?_⟩
  · rw [span_target, span]
    exact h.here.nonempty
  · rw [after, span_target, span]
    intro d hd
    obtain ⟨x, hx, rfl⟩ := mem hd
    rw [span_target, (ih x hx).span]
    exact inside (read x) (read_mem hx)
  · rw [after]
    simp only [targets, reads, List.pairwise_map] at apart ⊢
    refine apart.imp_of_mem ?_
    intro x y hx hy earlier
    have stop := earlier.stop_le
    have disjoint := earlier.disjoint
    refine ⟨?_, ?_⟩
    · rw [span_target, span_target, (ih x hx).span, (ih y hy).span]
      exact stop
    · rw [(ih x hx).keys, (ih y hy).keys]
      exact disjoint
  · rw [after, key]
    intro d hd
    obtain ⟨x, hx, rfl⟩ := mem hd
    rw [(ih x hx).keys]
    exact own (read x) (read_mem hx)
  · rintro _ ⟨⟩
    exact formed _
  · rw [after]
    intro d hd
    obtain ⟨x, hx, rfl⟩ := mem hd
    exact (ih x hx).laid
  · rw [keys_eq, keys_eq, after, before, key]
    congr 1
    simp only [targets, reads, List.flatMap_map]
    exact List.flatMap_congr fun x hx => (ih x hx).keys

/-- An expression that can be a target is laid as one. -/
theorem Laid.retarget {ctx : Context} {e : Expr} (change : ctx ≠ .load) (h : (read e).Laid)
    (can : e.untargetable = []) : Retargets e (e.retarget ctx) := by
  fun_induction Expr.retarget ctx e with
  | case1 m id c => exact h.retargets rfl rfl change trivial
  | case2 m value ident c =>
    have formed : Formed m.span.stop (.attr m value ident c) := h.here.formed _ rfl
    exact h.retargets rfl rfl change formed
  | case3 m value index c => exact h.retargets rfl rfl change trivial
  | case4 m value c ih =>
    rw [Expr.untargetable] at can
    refine h.retargets_elements [value] rfl rfl rfl change (fun _ => trivial) ?_
    exact List.forall_mem_singleton.2 (ih (h.part List.mem_cons_self) can)
  | case5 m elements c parenthesized ih =>
    rw [Expr.untargetable, List.flatMap_eq_nil_iff] at can
    refine h.retargets_elements elements rfl rfl rfl change (fun _ => trivial) ?_
    exact fun d hd => ih d hd (h.part (List.mem_map_of_mem hd)) (can d hd)
  | case6 m elements c ih =>
    rw [Expr.untargetable, List.flatMap_eq_nil_iff] at can
    refine h.retargets_elements elements rfl rfl rfl change (fun _ => trivial) ?_
    exact fun d hd => ih d hd (h.part (List.mem_map_of_mem hd)) (can d hd)
  | case7 e noName noAttr noSubscript noStar noTuple noList =>
    cases e with
    | missing m => nomatch h.here.role
    | name m id c => exact absurd rfl (noName m id c)
    | attr m value ident c => exact absurd rfl (noAttr m value ident c)
    | subscript m value index c => exact absurd rfl (noSubscript m value index c)
    | starred m value c => exact absurd rfl (noStar m value c)
    | tuple m elements c p => exact absurd rfl (noTuple m elements c p)
    | list m elements c => exact absurd rfl (noList m elements c)
    | _ => simp [Expr.untargetable] at can

end Node

namespace Row

variable {a b c d : Point} {ns ms : List Node} {e : Expr}

/-- A node that grows, up to points around it. -/
lemma withSpan {s : Span} (h : Row a b [.read e]) (left : c.Upto a) (right : b.Upto d)
    (start : c.offset ≤ s.start ∧ s.start ≤ e.span.start)
    (stop : e.span.stop ≤ s.stop ∧ s.stop ≤ d.offset) : Row c d [.read (e.withSpan s)] := by
  have laid : (Node.read e).Laid := h.laid _ List.mem_cons_self
  have span : (Node.read (e.withSpan s)).span = s := by cases e <;> rfl
  refine ⟨List.forall_mem_singleton.2 (laid.withSpan start.2 stop.1),
    List.forall_mem_singleton.2 ?_, List.pairwise_singleton _ _, List.forall_mem_singleton.2 ?_⟩
  · rw [span]
    exact ⟨start.1, stop.2⟩
  · intro k hk
    rw [Node.keys_withSpan] at hk
    exact (h.numbered _ List.mem_cons_self k hk).mono ⟨left.exprs, left.stmts⟩
      ⟨right.exprs, right.stmts⟩

/-- A node of a row as a target. -/
lemma retarget {ctx : Context} (change : ctx ≠ .load) (h : Row a b (ns ++ .read e :: ms))
    (can : e.untargetable = []) : Row a b (ns ++ .target (e.retarget ctx) :: ms) := by
  have laid : (Node.read e).Laid := h.right.laid _ List.mem_cons_self
  obtain ⟨laid', span, keys⟩ := laid.retarget change can
  exact h.replace laid' span keys

end Row

end MethodLift.Syntax
